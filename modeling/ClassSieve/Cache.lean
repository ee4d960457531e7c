import ClassSieve.Loaders
import ClassSieve.Rules.Policy
import ClassSieve.Table

/-!
# The class cache

What is known of classes, by loader and class name. A class is parsed when it is first asked for,
and a class that cannot be parsed is remembered as well. An entry decided under an older policy is
decided anew when it is asked for; the class is parsed again only where the new policy needs its
outline. The tables of retired loaders are dropped before a look-up is answered, and a loader that
is not live gets answers but no table. Every use of an entry stamps it with the number of
admissions so far; an admission beyond the capacity drops the entries with the oldest stamps until
an eighth of the capacity is free.
-/
namespace ClassSieve
open ClassFile

inductive Outcome where
  | resolved (info : ClassInfo) (decision : Decision)
  | failed (fault : Fault)

structure Entry where
  outcome : Outcome
  generation : Nat

namespace Entry

def decision (entry : Entry) : Decision :=
  match entry.outcome with
  | .resolved _ decision => decision
  | .failed _ => .noMatch

def info? (entry : Entry) : Option ClassInfo :=
  match entry.outcome with
  | .resolved info _ => some info
  | .failed _ => none

def header? (entry : Entry) : Option Header := entry.info?.map ClassInfo.getHeader

def fault? (entry : Entry) : Option Fault :=
  match entry.outcome with
  | .resolved .. => none
  | .failed fault => some fault

def candidate? (entry : Entry) : Option ClassInfo :=
  match entry.decision with
  | .included => entry.info?
  | .excluded | .noMatch => none

def compute (edition : Edition) (name : Option String) (bytes : Bytes) : Entry :=
  match edition.policy.evaluate name bytes with
  | .ok (info, decision) => ⟨.resolved info decision, edition.generation⟩
  | .error fault => ⟨.failed fault, edition.generation⟩

def needsParse (edition : Edition) (name : String) (stale : Entry) : Bool :=
  match stale.outcome with
  | .resolved .. => edition.policy.needsOutline (edition.policy.names.decide name)
  | .failed _ => false

/-- A stale entry decided anew from what it holds; a failure stays one. -/
def redecide (edition : Edition) (name : String) (stale : Entry) : Entry :=
  match stale.outcome with
  | .resolved info _ => ⟨.resolved info (edition.policy.decide name info), edition.generation⟩
  | .failed fault => ⟨.failed fault, edition.generation⟩

end Entry

structure CacheSlot where
  entry : Entry
  /-- The number of admissions up to the last use. -/
  lastUse : Nat

abbrev ClassTable := Table String CacheSlot

structure CacheCounts where
  hits : Nat
  misses : Nat
  parses : Nat
  failures : Nat
  refreshes : Nat
  uncached : Nat
  evictions : Nat
  deriving DecidableEq, Repr

structure Cache where
  capacity : Nat
  tables : Table LoaderKey ClassTable
  sweptEpoch : Nat
  entries : Nat
  admissions : Nat
  counts : CacheCounts

structure Lookup where
  entry : Entry
  bytesRead : Bool

namespace Cache

def leastCapacity : Nat := 16
def greatestCapacity : Nat := 1048576
def defaultCapacity : Nat := 65536

def ofCapacity (capacity : Nat) (loaders : Loaders) : Cache where
  capacity := max leastCapacity (min capacity greatestCapacity)
  tables := []
  sweptEpoch := loaders.epoch
  entries := 0
  admissions := 0
  counts := ⟨0, 0, 0, 0, 0, 0, 0⟩

def loaderCount (cache : Cache) : Nat := cache.tables.length

def size (cache : Cache) : Nat := (cache.tables.map fun entry => entry.2.length).foldr (· + ·) 0

def slot? (cache : Cache) (loader : LoaderKey) (name : String) : Option CacheSlot :=
  (cache.tables.get? loader).bind (·.get? name)

def setSlot (cache : Cache) (loader : LoaderKey) (name : String) (slot : CacheSlot) : Cache :=
  let table := (cache.tables.get? loader).getD []
  { cache with tables := cache.tables.set loader (table.set name slot) }

def eraseSlot (cache : Cache) (loader : LoaderKey) (name : String) : Cache :=
  match cache.tables.get? loader with
  | some table => { cache with tables := cache.tables.set loader (table.erase name) }
  | none => cache

def forget (cache : Cache) (n : Nat) : Cache := { cache with entries := cache.entries - n }

def sweep (cache : Cache) (loaders : Loaders) : Cache × Nat :=
  let (kept, dropped) := cache.tables.partition fun entry => loaders.isLive entry.1
  let swept := { cache with
    tables := kept
    sweptEpoch := max cache.sweptEpoch loaders.epoch }
  (swept.forget ((dropped.map fun entry => entry.2.length).foldr (· + ·) 0), dropped.length)

def sweepIfDue (cache : Cache) (loaders : Loaders) : Cache :=
  if cache.sweptEpoch ≠ loaders.epoch then (cache.sweep loaders).1 else cache

def uses (cache : Cache) : List (Nat × LoaderKey × String) :=
  cache.tables.flatMap fun (loader, table) =>
    table.map fun (name, slot) => (slot.lastUse, loader, name)

def kept (cache : Cache) : Nat := cache.capacity - cache.capacity / 8

/-- Drops the entries with the oldest last uses until an eighth of the capacity is free. -/
def trim (cache : Cache) : Cache :=
  let uses := cache.uses
  if uses.length ≤ cache.kept then { cache with entries := uses.length }
  else
    let oldest := (uses.mergeSort fun a b => a.1 ≤ b.1).take (uses.length - cache.kept)
    let trimmed := oldest.foldl (fun cache use => cache.eraseSlot use.2.1 use.2.2) cache
    { trimmed.forget oldest.length with
      counts := { cache.counts with evictions := cache.counts.evictions + oldest.length } }

def countParse (counts : CacheCounts) (entry : Entry) : CacheCounts :=
  { counts with
    parses := counts.parses + 1
    failures := counts.failures + if entry.fault?.isSome then 1 else 0 }

def store (cache : Cache) (loader : LoaderKey) (name : String) (entry : Entry) : Cache :=
  let admissions := cache.admissions + 1
  let grown : Cache := { cache.setSlot loader name ⟨entry, admissions⟩ with
    admissions
    entries := cache.entries + 1 }
  if grown.capacity < grown.entries then grown.trim else grown

def touch (cache : Cache) (loader : LoaderKey) (name : String) (slot : CacheSlot) : Cache :=
  cache.setSlot loader name { slot with lastUse := cache.admissions }

def answerStored (cache : Cache) (edition : Edition) (loader : LoaderKey) (name : String)
    (bytes : Bytes) (slot : CacheSlot) : Cache × Lookup :=
  if slot.entry.generation < edition.generation then
    let counts := { cache.counts with refreshes := cache.counts.refreshes + 1 }
    if slot.entry.needsParse edition name then
      let entry := Entry.compute edition (some name) bytes
      ({ cache.setSlot loader name { slot with entry } with counts := countParse counts entry },
        ⟨entry, true⟩)
    else
      let entry := slot.entry.redecide edition name
      ({ cache.setSlot loader name { slot with entry } with counts }, ⟨entry, false⟩)
  else
    ({ cache.touch loader name slot with
      counts := { cache.counts with hits := cache.counts.hits + 1 } }, ⟨slot.entry, false⟩)

def answerMissing (cache : Cache) (live : Bool) (edition : Edition) (loader : LoaderKey)
    (name : String) (bytes : Bytes) : Cache × Lookup :=
  let entry := Entry.compute edition (some name) bytes
  let counts := countParse cache.counts entry
  if live then
    let counted := { cache with counts := { counts with misses := counts.misses + 1 } }
    (counted.store loader name entry, ⟨entry, true⟩)
  else
    ({ cache with counts := { counts with uncached := counts.uncached + 1 } }, ⟨entry, true⟩)

def getOrCompute (cache : Cache) (loaders : Loaders) (edition : Edition) (loader : LoaderKey)
    (name : String) (bytes : Bytes) : Cache × Lookup :=
  let cache := cache.sweepIfDue loaders
  match cache.slot? loader name with
  | some slot => cache.answerStored edition loader name bytes slot
  | none =>
    let live := (cache.tables.get? loader).isSome || loaders.isLive loader
    cache.answerMissing live edition loader name bytes

def computeAnonymous (cache : Cache) (edition : Edition) (bytes : Bytes) : Cache × Lookup :=
  let entry := Entry.compute edition none bytes
  let counts := countParse cache.counts entry
  ({ cache with counts := { counts with uncached := counts.uncached + 1 } }, ⟨entry, true⟩)

def peek (cache : Cache) (loader : LoaderKey) (name : String) : Cache × Option Entry :=
  match cache.slot? loader name with
  | some slot => (cache.touch loader name slot, some slot.entry)
  | none => (cache, none)

def findAny (cache : Cache) (loaders : Loaders) (name : String) :
    Cache × Option (LoaderKey × Entry) :=
  let holders := cache.tables.filter fun entry =>
    loaders.isLive entry.1 && (entry.2.get? name).isSome
  match holders with
  | [] => (cache, none)
  | holder :: _ =>
    let (cache, entry) := cache.peek holder.1 name
    (cache, entry.map fun found => (holder.1, found))

def invalidate (cache : Cache) (loader : LoaderKey) (name : String) : Cache × Bool :=
  match cache.slot? loader name with
  | some _ => ((cache.eraseSlot loader name).forget 1, true)
  | none => (cache, false)

def redefine (cache : Cache) (loaders : Loaders) (edition : Edition) (loader : LoaderKey)
    (name : String) (bytes : Bytes) : Cache × Lookup :=
  (cache.invalidate loader name).1.getOrCompute loaders edition loader name bytes

def evictLoader (cache : Cache) (loader : LoaderKey) : Cache × Nat :=
  match cache.tables.get? loader with
  | some table =>
    ({ cache with tables := cache.tables.erase loader }.forget table.length, table.length)
  | none => (cache, 0)

end Cache

end ClassSieve
