import ClassSieve.Proofs.Cache.Accounting

/-!
# The bytes of a look-up

The bytes of a class are supplied on demand, and once only. `Call.getOrCompute` is a look-up by its
two gates: a class that is not stored is parsed, then one that is stale is decided anew, and at
either gate the bytes may be asked for. It answers as `Cache.getOrCompute` does, and it never asks
for bytes that are gone.
-/
namespace ClassSieve
open ClassFile

structure Call where
  cache : Cache
  supply : Option Bytes
  parsed : List (Option Bytes)

namespace Call
variable (loaders : Loaders) (edition : Edition) (loader : LoaderKey) (name : String)

def ofBytes (cache : Cache) (bytes : Bytes) : Call := ⟨cache, some bytes, []⟩

def update (change : Cache → Cache) : StateM Call Unit :=
  modify fun call => { call with cache := change call.cache }

def count (kind : LookupKind) : StateM Call Unit :=
  update fun cache => cache.recount (cache.counts.add kind)

def parse : StateM Call Entry :=
  modifyGet fun call =>
    let entry := Entry.compute edition (some name) (call.supply.getD [])
    (entry, {
      cache := call.cache.recount (Cache.countParse call.cache.counts entry)
      supply := none
      parsed := call.parsed ++ [call.supply] })

def fill : StateM Call (CacheSlot × Bool) := do
  match (← get).cache.slot? loader name with
  | some slot => return (slot, false)
  | none =>
    count .miss
    let entry ← parse edition name
    update fun cache => cache.store loader name entry
    return (⟨entry, (← get).cache.admissions⟩, true)

def renew (slot : CacheSlot) : StateM Call CacheSlot := do
  count .refresh
  let entry ←
    if slot.entry.needsParse edition name then parse edition name
    else pure (slot.entry.redecide edition name)
  update fun cache => cache.setSlot loader name { slot with entry }
  return { slot with entry }

def hit (slot : CacheSlot) : StateM Call Unit := do
  count .hit
  update fun cache => cache.touch loader name slot

def answer : StateM Call Entry := do
  if (← get).cache.serves loaders loader then
    let (slot, computed) ← fill edition loader name
    let (slot, computed) ←
      if !computed && slot.entry.generation < edition.generation then
        let slot ← renew edition loader name slot
        pure (slot, true)
      else pure (slot, computed)
    if !computed then hit loader name slot
    return slot.entry
  else
    count .uncached
    parse edition name

def getOrCompute : StateM Call Entry := do
  update fun cache => cache.sweepIfDue loaders
  answer loaders edition loader name

def redefine : StateM Call Entry := do
  update fun cache => (cache.invalidate loader name).1
  getOrCompute loaders edition loader name

/-- What a look-up leaves: its bytes were taken by one parse if it reads them, and else by none. -/
def answered (bytes : Bytes) (result : Cache × Lookup) : Entry × Call :=
  (result.2.entry,
    if result.2.bytesRead then ⟨result.1, none, [some bytes]⟩ else ⟨result.1, some bytes, []⟩)

variable {loaders edition loader name} {cache : Cache} {slot : CacheSlot}

theorem run_fill_of_stored (h : cache.slot? loader name = some slot) (bytes : Bytes) :
    (fill edition loader name).run (ofBytes cache bytes) =
      pure ((slot, false), ofBytes cache bytes) := by
  simp only [fill, ofBytes, StateT.run_bind, StateT.run_get, pure_bind, h]
  rfl

theorem run_fill_of_missing (h : cache.slot? loader name = none) (bytes : Bytes) :
    (fill edition loader name).run (ofBytes cache bytes) =
      let filled := cache.answerMissing true edition loader name bytes
      pure ((⟨filled.2.entry, filled.1.admissions⟩, true), ⟨filled.1, none, [some bytes]⟩) := by
  simp only [fill, ofBytes, StateT.run_bind, StateT.run_get, pure_bind, h]
  rfl

theorem run_renew (hstale : slot.entry.generation < edition.generation) (bytes : Bytes) :
    (renew edition loader name slot).run (ofBytes cache bytes) =
      let result := cache.answerStored edition loader name bytes slot
      pure ({ slot with entry := result.2.entry }, (answered bytes result).2) := by
  rw [Cache.answerStored, if_pos hstale]
  simp only [renew]
  split
  · rfl
  · rfl

theorem run_hit (hfresh : ¬ slot.entry.generation < edition.generation) (bytes : Bytes) :
    (hit loader name slot).run (ofBytes cache bytes) =
      let result := cache.answerStored edition loader name bytes slot
      pure ((), (answered bytes result).2) := by
  rw [Cache.answerStored, if_neg hfresh]
  rfl

theorem run_answer (cache : Cache) (bytes : Bytes) :
    (answer loaders edition loader name).run (ofBytes cache bytes) =
      pure (answered bytes (cache.answerSwept loaders edition loader name bytes)) := by
  have hcache : (ofBytes cache bytes).cache = cache := rfl
  rw [Cache.answerSwept]
  simp only [answer, StateT.run_bind, StateT.run_get, pure_bind, hcache]
  cases hslot : cache.slot? loader name with
  | some slot =>
    have hserves : cache.serves loaders loader = true := by
      rw [Cache.serves, Cache.isSome_tables_of_slot? hslot, Bool.true_or]
    rw [if_pos hserves, StateT.run_bind, run_fill_of_stored hslot, pure_bind]
    by_cases hstale : slot.entry.generation < edition.generation
    · rw [if_pos (by simp [hstale]), StateT.run_bind, run_renew hstale, pure_bind]
      rfl
    · have hentry : (cache.answerStored edition loader name bytes slot).2.entry = slot.entry := by
        rw [Cache.answerStored, if_neg hstale]
      rw [if_neg (by simp [hstale]), if_pos (by simp), StateT.run_bind, run_hit hstale, pure_bind,
        ← hentry]
      rfl
  | none =>
    cases hserves : cache.serves loaders loader with
    | true =>
      rw [if_pos rfl, StateT.run_bind, run_fill_of_missing hslot, pure_bind]
      rw [if_neg (by simp), if_neg (by simp)]
      rfl
    | false => rfl

theorem run_getOrCompute (cache : Cache) (bytes : Bytes) :
    (getOrCompute loaders edition loader name).run (ofBytes cache bytes) =
      pure (answered bytes (cache.getOrCompute loaders edition loader name bytes)) :=
  run_answer (cache.sweepIfDue loaders) bytes

theorem run_redefine (cache : Cache) (bytes : Bytes) :
    (redefine loaders edition loader name).run (ofBytes cache bytes) =
      pure (answered bytes (cache.redefine loaders edition loader name bytes)) :=
  run_getOrCompute (cache.invalidate loader name).1 bytes

end Call

end ClassSieve
