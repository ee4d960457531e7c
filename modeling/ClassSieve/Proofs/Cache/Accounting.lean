import ClassSieve.Proofs.Cache.LiveTables

/-!
# What the counts of a cache count

A look-up is a hit, a miss, a refresh or uncached, and adds to that count alone; no other operation
adds to any. A class is parsed where it is missed or uncached, and on a refresh only where the class
was read before and the new policy asks for its outline.
-/
namespace ClassSieve
open ClassFile

theorem countP_cons_eq_toNat_add {α : Type} (p : α → Bool) (a : α) (l : List α) :
    (a :: l).countP p = (p a).toNat + l.countP p := by
  rw [List.countP_cons, Nat.add_comm]
  cases p a <;> rfl

inductive LookupKind where
  | hit
  | miss
  | refresh
  | uncached
  deriving DecidableEq, Repr

def LookupKind.parses (rereads : Bool) : LookupKind → Bool
  | .hit => false
  | .miss | .uncached => true
  | .refresh => rereads

namespace CacheCounts
variable (counts : CacheCounts)

def of : LookupKind → Nat
  | .hit => counts.hits
  | .miss => counts.misses
  | .refresh => counts.refreshes
  | .uncached => counts.uncached

def add : LookupKind → CacheCounts
  | .hit => { counts with hits := counts.hits + 1 }
  | .miss => { counts with misses := counts.misses + 1 }
  | .refresh => { counts with refreshes := counts.refreshes + 1 }
  | .uncached => { counts with uncached := counts.uncached + 1 }

def lookups : Nat := counts.hits + counts.misses + counts.refreshes + counts.uncached

theorem of_add (kind other : LookupKind) :
    (counts.add kind).of other = counts.of other + if kind = other then 1 else 0 := by
  cases kind <;> cases other <;> rfl

theorem lookups_add (kind : LookupKind) : (counts.add kind).lookups = counts.lookups + 1 := by
  cases kind <;> simp only [add, lookups] <;> omega

@[simp] theorem parses_add (kind : LookupKind) : (counts.add kind).parses = counts.parses := by
  cases kind <;> rfl

@[simp] theorem failures_add (kind : LookupKind) :
    (counts.add kind).failures = counts.failures := by
  cases kind <;> rfl

end CacheCounts

namespace Lookup

def failed (answer : Lookup) : Bool := answer.bytesRead && answer.entry.fault?.isSome

def countParses (answer : Lookup) (counts : CacheCounts) : CacheCounts :=
  if answer.bytesRead then Cache.countParse counts answer.entry else counts

variable (answer : Lookup) (counts : CacheCounts)

@[simp] theorem of_countParses (kind : LookupKind) :
    (answer.countParses counts).of kind = counts.of kind := by
  rw [countParses]
  cases kind <;> split <;> rfl

@[simp] theorem lookups_countParses : (answer.countParses counts).lookups = counts.lookups := by
  rw [countParses]
  split <;> rfl

theorem parses_countParses :
    (answer.countParses counts).parses = counts.parses + answer.bytesRead.toNat := by
  rw [countParses]
  cases answer.bytesRead <;> rfl

theorem failures_countParses :
    (answer.countParses counts).failures = counts.failures + answer.failed.toNat := by
  rw [countParses, failed]
  cases answer.bytesRead with
  | true =>
    simp only [if_true, Cache.countParse, Bool.true_and]
    cases answer.entry.fault?.isSome <;> rfl
  | false => rfl

end Lookup

namespace Cache
variable (cache : Cache) (loaders : Loaders) (edition : Edition) (loader : LoaderKey)
  (name : String) (bytes : Bytes)

def lookupKind : LookupKind :=
  match cache.slot? loader name with
  | some slot => if slot.entry.generation < edition.generation then .refresh else .hit
  | none => if cache.serves loaders loader then .miss else .uncached

def rereads : Bool :=
  cache.lookupKind loaders edition loader name = .refresh &&
    ((cache.slot? loader name).bind fun slot => slot.entry.info?).isSome &&
    edition.policy.needsOutline (edition.policy.names.decide name)

theorem counts_store (entry : Entry) :
    ∃ evictions, (cache.store loader name entry).counts = { cache.counts with evictions } := by
  rw [store_eq]
  split
  · by_cases hsize : (cache.grown loader name entry).size ≤ (cache.grown loader name entry).kept
    · rw [trim_of_le hsize]
      exact ⟨_, rfl⟩
    · rw [trim_of_lt (by omega)]
      exact ⟨_, rfl⟩
  · exact ⟨_, rfl⟩

theorem counts_answerSwept :
    let answered := cache.answerSwept loaders edition loader name bytes
    ∃ evictions, answered.1.counts =
      { (answered.2.countParses cache.counts).add
          (cache.lookupKind loaders edition loader name) with evictions } := by
  rw [answerSwept, lookupKind]
  cases hslot : cache.slot? loader name with
  | some slot =>
    simp only [answerStored]
    split
    · split <;> exact ⟨_, rfl⟩
    · exact ⟨_, rfl⟩
  | none =>
    simp only [answerMissing]
    split
    · apply counts_store
    · exact ⟨_, rfl⟩

theorem needsParse_eq (entry : Entry) :
    entry.needsParse edition name = (entry.info?.isSome &&
      edition.policy.needsOutline (edition.policy.names.decide name)) := by
  rw [Entry.needsParse, Entry.info?]
  cases entry.outcome <;> rfl

theorem bytesRead_answerSwept :
    (cache.answerSwept loaders edition loader name bytes).2.bytesRead =
      (cache.lookupKind loaders edition loader name).parses
        (cache.rereads loaders edition loader name) := by
  rw [rereads, answerSwept, lookupKind]
  cases hslot : cache.slot? loader name with
  | some slot =>
    simp only [answerStored, Option.bind_some]
    split
    · rw [needsParse_eq]
      split
      · next hparse => simp [hparse, LookupKind.parses]
      · next hparse => simp [Bool.eq_false_iff.2 hparse, LookupKind.parses]
    · rfl
  | none =>
    simp only [answerMissing]
    split <;> rfl

theorem entry_of_bytesRead
    (h : (cache.answerSwept loaders edition loader name bytes).2.bytesRead = true) :
    (cache.answerSwept loaders edition loader name bytes).2.entry =
      Entry.compute edition (some name) bytes := by
  rw [answerSwept] at h ⊢
  cases hslot : cache.slot? loader name with
  | some slot =>
    simp only [hslot, answerStored] at h ⊢
    split at h
    · split at h
      · next hstale hparse => rw [if_pos hstale, if_pos hparse]
      · cases h
    · cases h
  | none =>
    simp only [answerMissing]
    split <;> rfl

end Cache

def Operation.looksUp : Operation → Bool
  | .load .. | .redefine .. => true
  | _ => false

namespace Answer

def parses : Answer → Bool
  | .lookup answer => answer.bytesRead
  | _ => false

def fails : Answer → Bool
  | .lookup answer => answer.failed
  | _ => false

end Answer

namespace Agent
variable {agent : Agent} {operation : Operation} {loader : LoaderKey} {name : String}
  {bytes : Bytes}

def lookupKind? (agent : Agent) (operation : Operation) : Option LookupKind :=
  match operation with
  | .load _ none _ => some .uncached
  | .load loader (some name) _ | .redefine loader name _ =>
    some ((agent.cleared operation).lookupKind agent.loaders agent.edition loader name)
  | _ => none

def rereads (agent : Agent) (operation : Operation) : Bool :=
  match operation with
  | .load loader (some name) _ | .redefine loader name _ =>
    (agent.cleared operation).rereads agent.loaders agent.edition loader name
  | _ => false

theorem isSome_lookupKind? (agent : Agent) (operation : Operation) :
    (agent.lookupKind? operation).isSome = operation.looksUp := by
  cases operation with
  | load loader name bytes => cases name <;> rfl
  | _ => rfl

theorem lookupKind?_of_lookup? (agent : Agent)
    (h : operation.lookup? = some (loader, name, bytes)) :
    agent.lookupKind? operation =
        some ((agent.cleared operation).lookupKind agent.loaders agent.edition loader name) ∧
      agent.rereads operation =
        (agent.cleared operation).rereads agent.loaders agent.edition loader name := by
  rcases Operation.eq_of_lookup? h with rfl | rfl
  · exact ⟨rfl, rfl⟩
  · exact ⟨rfl, rfl⟩

/-- A look-up counts its parse, if there is one, and itself under its kind. -/
structure Counted (agent : Agent) (kind : LookupKind) (rereads : Bool) (answer : Lookup)
    (counts : CacheCounts) : Prop where
  counts_eq : ∃ evictions,
    counts = { (answer.countParses agent.cache.counts).add kind with evictions }
  bytesRead_eq : answer.bytesRead = kind.parses rereads

theorem counted_step {kind : LookupKind} (h : agent.lookupKind? operation = some kind) :
    ∃ answer, (agent.step operation).2 = .lookup answer ∧
      agent.Counted kind (agent.rereads operation) answer
        (agent.step operation).1.cache.counts := by
  cases hlookup : operation.lookup? with
  | some found =>
    obtain ⟨loader, name, bytes⟩ := found
    obtain ⟨hkind, hrereads⟩ := lookupKind?_of_lookup? agent hlookup
    rw [hkind, Option.some.injEq] at h
    have hcounts := (cleared_cleared agent operation).counts
    rw [step_of_lookup? agent hlookup, hrereads, ← h]
    refine ⟨_, rfl, ?_, Cache.bytesRead_answerSwept ..⟩
    rw [← hcounts]
    exact Cache.counts_answerSwept ..
  | none =>
    cases operation with
    | load loader name bytes =>
      cases name with
      | none =>
        cases h
        exact ⟨_, rfl, ⟨_, rfl⟩, rfl⟩
      | some name => cases hlookup
    | redefine loader name bytes => cases hlookup
    | _ => cases h

theorem counts_step_of_other (h : agent.lookupKind? operation = none) :
    (agent.step operation).1.cache.counts = agent.cache.counts ∧
      (agent.step operation).2.parses = false ∧ (agent.step operation).2.fails = false := by
  have hcleared := (cleared_cleared agent operation).counts
  cases operation with
  | load loader name bytes => cases name <;> cases h
  | redefine loader name bytes => cases h
  | retire handle =>
    simp only [step, retire]
    split <;> exact ⟨rfl, rfl, rfl⟩
  | peek loader name =>
    simp only [step, Cache.peek]
    split <;> exact ⟨rfl, rfl, rfl⟩
  | findAny name =>
    simp only [step]
    rcases agent.cache.findAny_cases agent.loaders name with hfind | ⟨loader, slot, -, -, hfind⟩
    · rw [hfind]
      exact ⟨rfl, rfl, rfl⟩
    · rw [hfind]
      exact ⟨rfl, rfl, rfl⟩
  | _ => exact ⟨hcleared, rfl, rfl⟩

theorem of_step (agent : Agent) (operation : Operation) (kind : LookupKind) :
    (agent.step operation).1.cache.counts.of kind =
      agent.cache.counts.of kind + if agent.lookupKind? operation = some kind then 1 else 0 := by
  cases hkind : agent.lookupKind? operation with
  | some found =>
    obtain ⟨answer, -, hcounted⟩ := counted_step hkind
    obtain ⟨evictions, hcounts⟩ := hcounted.counts_eq
    have hof : ∀ counts : CacheCounts, { counts with evictions }.of kind = counts.of kind := by
      intro counts
      cases kind <;> rfl
    rw [hcounts, hof, CacheCounts.of_add, Lookup.of_countParses]
    simp
  | none => rw [(counts_step_of_other hkind).1, if_neg (by simp), Nat.add_zero]

theorem lookups_step (agent : Agent) (operation : Operation) :
    (agent.step operation).1.cache.counts.lookups =
      agent.cache.counts.lookups + operation.looksUp.toNat := by
  rw [← isSome_lookupKind? agent]
  cases hkind : agent.lookupKind? operation with
  | some found =>
    obtain ⟨answer, -, hcounted⟩ := counted_step hkind
    obtain ⟨evictions, hcounts⟩ := hcounted.counts_eq
    have hlookups := CacheCounts.lookups_add (answer.countParses agent.cache.counts) found
    rw [Lookup.lookups_countParses] at hlookups
    rw [hcounts]
    exact hlookups
  | none => rw [(counts_step_of_other hkind).1]; rfl

theorem parses_step (agent : Agent) (operation : Operation) :
    (agent.step operation).1.cache.counts.parses =
        agent.cache.counts.parses + (agent.step operation).2.parses.toNat ∧
      (agent.step operation).1.cache.counts.failures =
        agent.cache.counts.failures + (agent.step operation).2.fails.toNat := by
  cases hkind : agent.lookupKind? operation with
  | some found =>
    obtain ⟨answer, hanswer, hcounted⟩ := counted_step hkind
    obtain ⟨evictions, hcounts⟩ := hcounted.counts_eq
    rw [hcounts, hanswer]
    simp [Lookup.parses_countParses, Lookup.failures_countParses, Answer.parses, Answer.fails]
  | none =>
    obtain ⟨hcounts, hparses, hfails⟩ := counts_step_of_other hkind
    rw [hcounts, hparses, hfails]
    exact ⟨rfl, rfl⟩

theorem rereads_eq_false (agent : Agent) (operation : Operation)
    (h : agent.lookupKind? operation ≠ some .refresh) : agent.rereads operation = false := by
  rw [Bool.eq_false_iff]
  intro hrereads
  apply h
  have hkind : ∀ loader name, (agent.cleared operation).rereads agent.loaders agent.edition loader
      name = true →
      (agent.cleared operation).lookupKind agent.loaders agent.edition loader name = .refresh := by
    intro loader name hreads
    rw [Cache.rereads, Bool.and_eq_true, Bool.and_eq_true, decide_eq_true_eq] at hreads
    exact hreads.1.1
  cases operation with
  | load loader name bytes =>
    cases name with
    | none => cases hrereads
    | some name => exact congrArg some (hkind loader name hrereads)
  | redefine loader name bytes => exact congrArg some (hkind loader name hrereads)
  | _ => cases hrereads

theorem parses_answer (agent : Agent) (operation : Operation) :
    (agent.step operation).2.parses.toNat =
      (if agent.lookupKind? operation = some .miss then 1 else 0) +
        (if agent.lookupKind? operation = some .uncached then 1 else 0) +
        (agent.rereads operation).toNat := by
  have hrereads := rereads_eq_false agent operation
  cases hkind : agent.lookupKind? operation with
  | some found =>
    rw [hkind] at hrereads
    obtain ⟨answer, hanswer, hcounted⟩ := counted_step hkind
    rw [hanswer, Answer.parses, hcounted.bytesRead_eq]
    cases found with
    | refresh => simp [LookupKind.parses]
    | _ => simp [LookupKind.parses, hrereads]
  | none =>
    rw [(counts_step_of_other hkind).2.1, hrereads (by simp [hkind])]
    rfl

/-! ## Runs -/

def rereadCount (agent : Agent) : List Operation → Nat
  | [] => 0
  | operation :: rest =>
    (agent.rereads operation).toNat + (agent.step operation).1.rereadCount rest

structure Accounted (lookups parses failures rereads : Nat) (agent : Agent) : Prop where
  lookups_eq : agent.cache.counts.lookups = lookups
  parses_eq : agent.cache.counts.parses = parses
  failures_eq : agent.cache.counts.failures = failures
  parses_split :
    parses = agent.cache.counts.of .miss + agent.cache.counts.of .uncached + rereads

variable {lookups parses failures rereads : Nat}

theorem accounted_withCache (edition : Edition) (loaders : Loaders) (handles : List Handle)
    (capacity : Nat) : (withCache edition loaders handles capacity).Accounted 0 0 0 0 where
  lookups_eq := rfl
  parses_eq := rfl
  failures_eq := rfl
  parses_split := rfl

theorem Accounted.step (h : agent.Accounted lookups parses failures rereads)
    (operation : Operation) :
    (agent.step operation).1.Accounted (lookups + operation.looksUp.toNat)
      (parses + (agent.step operation).2.parses.toNat)
      (failures + (agent.step operation).2.fails.toNat)
      (rereads + (agent.rereads operation).toNat) := by
  have hsplit := h.parses_split
  -- the parse of the operation is one of the three that are told apart
  have hanswer := parses_answer agent operation
  have hmisses := of_step agent operation .miss
  have huncached := of_step agent operation .uncached
  obtain ⟨hparses, hfailures⟩ := parses_step agent operation
  refine ⟨?_, ?_, ?_, by omega⟩
  · rw [lookups_step, h.lookups_eq]
  · rw [hparses, h.parses_eq]
  · rw [hfailures, h.failures_eq]

theorem Accounted.run (h : agent.Accounted lookups parses failures rereads)
    (past : List Operation) :
    (agent.run past).1.Accounted (lookups + past.countP Operation.looksUp)
      (parses + (agent.run past).2.countP Answer.parses)
      (failures + (agent.run past).2.countP Answer.fails)
      (rereads + agent.rereadCount past) := by
  induction past generalizing agent lookups parses failures rereads with
  | nil => exact h
  | cons operation rest ih =>
    simp only [Agent.run, rereadCount, countP_cons_eq_toNat_add, ← Nat.add_assoc]
    exact ih (h.step operation)

end Agent

end ClassSieve
