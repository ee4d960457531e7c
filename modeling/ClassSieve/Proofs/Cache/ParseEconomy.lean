import ClassSieve.Proofs.Cache.Supplier
import ClassSieve.Proofs.Cache.Transparency

/-!
# How often a class is parsed

A class that stays stored is parsed again only by a refresh, and a refresh brings it to the
generation of the policy in force. So from its admission on it is parsed once, and once more at most
for each replacement of the policy.
-/
namespace ClassSieve
open ClassFile

theorem Entry.le_answer_generation (edition : Edition) (name : String) (bytes : Bytes)
    (stored : Option Entry) :
    edition.generation ≤ (answer edition name bytes stored).generation := by
  cases stored with
  | none => exact (compute_generation ..).ge
  | some entry =>
    rw [answer]
    split
    · split
      · exact (compute_generation ..).ge
      · exact (redecide_generation ..).ge
    · omega

def Operation.replaces (operation : Operation) : Bool := operation.policy?.isSome

namespace Agent
variable {agent : Agent} {operation : Operation} {loader : LoaderKey} {name : String}
  {bytes : Bytes}

/-- How many policies were installed since the entry of a class was decided. -/
def staleness (agent : Agent) (loader : LoaderKey) (name : String) : Nat :=
  match agent.cache.stored? loader name with
  | some entry => agent.edition.generation - entry.generation
  | none => 0

def parsesClass (agent : Agent) (loader : LoaderKey) (name : String) (operation : Operation) :
    Bool :=
  match operation.lookup? with
  | some found => (found.1, found.2.1) = (loader, name) && (agent.step operation).2.parses
  | none => false

def parsesOf (agent : Agent) (loader : LoaderKey) (name : String) : List Operation → Nat
  | [] => 0
  | operation :: rest =>
    (agent.parsesClass loader name operation).toNat +
      (agent.step operation).1.parsesOf loader name rest

/-- Whether a class is stored still when each operation of a run has dropped what it drops. -/
def holds (agent : Agent) (loader : LoaderKey) (name : String) : List Operation → Bool
  | [] => true
  | operation :: rest =>
    ((agent.cleared operation).slot? loader name).isSome &&
      (agent.step operation).1.holds loader name rest

theorem edition_of_lookup? (agent : Agent)
    (h : operation.lookup? = some (loader, name, bytes)) :
    (agent.step operation).1.edition = agent.edition := by
  rw [step_of_lookup? agent h]

theorem generation_step (agent : Agent) (operation : Operation) :
    (agent.step operation).1.edition.generation =
      agent.edition.generation + operation.replaces.toNat := by
  rw [step_edition, Operation.replaces]
  cases operation.policy? <;> rfl

theorem staleness_of_lookup? (agent : Agent)
    (h : operation.lookup? = some (loader, name, bytes)) :
    (agent.step operation).1.staleness loader name = 0 := by
  rw [staleness, edition_of_lookup? agent h]
  split
  · next entry hentry =>
    rcases stored?_of_step hentry with ⟨_, answer, -, hanswer, rfl⟩ | ⟨hother, -⟩
    · obtain ⟨same, stored, hsame, hstored, -⟩ := step_lookup agent h
      rw [hanswer] at hsame
      cases hsame
      have hle := Entry.le_answer_generation agent.edition name bytes stored
      rw [← hstored] at hle
      omega
    · exact absurd h (hother bytes)
  · rfl

theorem answer_of_lookup? (agent : Agent)
    (h : operation.lookup? = some (loader, name, bytes)) :
    ∃ answer, (agent.step operation).2 = .lookup answer ∧
      (agent.step operation).1.cache.counts.parses =
        agent.cache.counts.parses + answer.bytesRead.toNat ∧
      (answer.bytesRead = true → answer.entry = Entry.compute agent.edition (some name) bytes) ∧
      (agent.lookupKind? operation = some .hit → answer.bytesRead = false) := by
  have hanswer := congrArg Prod.snd (step_of_lookup? agent h)
  have hparses := (parses_step agent operation).1
  rw [hanswer] at hparses
  refine ⟨_, hanswer, hparses, Cache.entry_of_bytesRead _ _ _ _ _ _, ?_⟩
  intro hhit
  rw [(lookupKind?_of_lookup? agent h).1, Option.some.injEq] at hhit
  rw [Cache.bytesRead_answerSwept, hhit]
  rfl

theorem parsesClass_of_hit (agent : Agent) (h : operation.lookup? = some (loader, name, bytes))
    (hhit : agent.lookupKind? operation = some .hit) :
    agent.parsesClass loader name operation = false := by
  obtain ⟨answer, hanswer, -, -, hread⟩ := answer_of_lookup? agent h
  simp [parsesClass, h, hanswer, Answer.parses, hread hhit]

theorem parsesClass_of_other (agent : Agent)
    (h : ∀ bytes, operation.lookup? ≠ some (loader, name, bytes)) :
    agent.parsesClass loader name operation = false := by
  rw [parsesClass]
  split
  · next found hfound =>
    rw [decide_eq_false, Bool.false_and]
    intro heq
    cases heq
    exact h _ hfound
  · rfl

/-- A parse of a class that is stored uses up a policy that was installed since it was decided. -/
theorem staleness_step (operation : Operation) {slot : CacheSlot}
    (hslot : (agent.cleared operation).slot? loader name = some slot) :
    (agent.parsesClass loader name operation).toNat +
        (agent.step operation).1.staleness loader name ≤
      agent.staleness loader name + operation.replaces.toNat := by
  have hstored : agent.cache.stored? loader name = some slot.entry :=
    Cache.stored?_eq_some_iff.2 ⟨slot, (cleared_cleared agent operation).slots hslot, rfl⟩
  have hstale : agent.staleness loader name = agent.edition.generation - slot.entry.generation := by
    rw [staleness, hstored]
  by_cases hlookup : ∃ bytes, operation.lookup? = some (loader, name, bytes)
  · obtain ⟨bytes, hlookup⟩ := hlookup
    rw [staleness_of_lookup? agent hlookup, hstale]
    by_cases holder : slot.entry.generation < agent.edition.generation
    · have hone := Bool.toNat_le (agent.parsesClass loader name operation)
      omega
    · have hhit : agent.lookupKind? operation = some .hit := by
        rw [(lookupKind?_of_lookup? agent hlookup).1, Cache.lookupKind, hslot]
        exact congrArg some (if_neg holder)
      rw [parsesClass_of_hit agent hlookup hhit]
      exact Nat.zero_le _
  · rw [not_exists] at hlookup
    have hgeneration := generation_step agent operation
    rw [parsesClass_of_other agent hlookup, hstale, staleness, Bool.toNat_false]
    split
    · next entry hentry =>
      rcases stored?_of_step hentry with ⟨bytes, -, hnamed, -⟩ | ⟨-, hbefore⟩
      · exact absurd hnamed (hlookup bytes)
      · rw [hstored, Option.some.injEq] at hbefore
        rw [← hbefore]
        omega
    · exact Nat.zero_le _

theorem parsesOf_le (agent : Agent) (rest : List Operation)
    (h : agent.holds loader name rest = true) :
    agent.parsesOf loader name rest ≤
      agent.staleness loader name + rest.countP Operation.replaces := by
  induction rest generalizing agent with
  | nil => exact Nat.zero_le _
  | cons operation rest ih =>
    rw [holds, Bool.and_eq_true, Option.isSome_iff_exists] at h
    obtain ⟨⟨slot, hslot⟩, hrest⟩ := h
    -- what the first operation parses is paid for by the staleness that it takes away
    have hstep := staleness_step operation hslot
    have hlater := ih (agent.step operation).1 hrest
    rw [parsesOf, countP_cons_eq_toNat_add]
    omega

/-- In every run each look-up is a hit, a miss, a refresh or uncached and counts as that alone, and
the parses are those of the misses, of the look-ups that are uncached and of the refreshes that read
a class again. A look-up asks for its bytes where it counts a parse: once, never on a hit, and no
parse goes without them. From a look-up on, and so from its admission on, a class is parsed once
and, as long as it is stored, once more at most for each replacement of the policy. -/
theorem lookups_accounted (edition : Edition) (loaders : Loaders) (handles : List Handle)
    (capacity : Nat) (past : List Operation) :
    let start := withCache edition loaders handles capacity
    let agent := (start.run past).1
    let answers := (start.run past).2
    let counts := agent.cache.counts
    counts.hits + counts.misses + counts.refreshes + counts.uncached =
        past.countP Operation.looksUp ∧
      counts.parses = counts.misses + counts.uncached + start.rereadCount past ∧
      counts.parses = answers.countP Answer.parses ∧
      counts.failures = answers.countP Answer.fails ∧
      (∀ operation, (agent.lookupKind? operation).isSome = operation.looksUp ∧
        ∀ kind, (agent.step operation).1.cache.counts.of kind =
          counts.of kind + if agent.lookupKind? operation = some kind then 1 else 0) ∧
      (∀ loader name bytes,
        (Call.getOrCompute agent.loaders agent.edition loader name).run
            (.ofBytes agent.cache bytes) =
          Call.answered bytes
            (agent.cache.getOrCompute agent.loaders agent.edition loader name bytes) ∧
        (Call.redefine agent.loaders agent.edition loader name).run (.ofBytes agent.cache bytes) =
          Call.answered bytes
            (agent.cache.redefine agent.loaders agent.edition loader name bytes)) ∧
      (∀ operation loader name bytes, operation.lookup? = some (loader, name, bytes) →
        ∃ answer, (agent.step operation).2 = .lookup answer ∧
          (agent.step operation).1.cache.counts.parses = counts.parses + answer.bytesRead.toNat ∧
          (answer.bytesRead = true → answer.entry = Entry.compute agent.edition (some name) bytes) ∧
          (agent.lookupKind? operation = some .hit → answer.bytesRead = false)) ∧
      ∀ operation loader name bytes later, operation.lookup? = some (loader, name, bytes) →
        (agent.step operation).1.holds loader name later = true →
        agent.parsesOf loader name (operation :: later) ≤ 1 + later.countP Operation.replaces := by
  intro start agent answers counts
  have haccounted : agent.Accounted (0 + past.countP Operation.looksUp)
      (0 + answers.countP Answer.parses) (0 + answers.countP Answer.fails)
      (0 + start.rereadCount past) :=
    (accounted_withCache edition loaders handles capacity).run past
  simp only [Nat.zero_add] at haccounted
  refine ⟨haccounted.lookups_eq, ?_, haccounted.parses_eq, haccounted.failures_eq, ?_, ?_, ?_, ?_⟩
  · exact haccounted.parses_eq.trans haccounted.parses_split
  · intro operation
    exact ⟨isSome_lookupKind? agent operation, of_step agent operation⟩
  · intro loader name bytes
    exact ⟨Call.run_getOrCompute agent.cache bytes, Call.run_redefine agent.cache bytes⟩
  · intro operation loader name bytes hlookup
    exact answer_of_lookup? agent hlookup
  · intro operation loader name bytes later hlookup hholds
    have hone := Bool.toNat_le (agent.parsesClass loader name operation)
    have hlater := parsesOf_le (agent.step operation).1 later hholds
    rw [staleness_of_lookup? agent hlookup] at hlater
    rw [parsesOf]
    omega

theorem lookups_accounted_reread :
    let agent := ((ofPolicy (policyOf .included) 16).run [.load .boot (some "A") headerAlone]).1
    let operation : Operation := .redefine .boot "A" headerAlone
    let later : List Operation := [.replacePolicy fieldPolicy, .load .boot (some "A") headerAlone]
    (agent.step operation).1.holds .boot "A" later = true ∧
      agent.parsesOf .boot "A" (operation :: later) = 2 ∧
      agent.parsesOf .boot "A" (operation :: later) ≤ 1 + later.countP Operation.replaces := by
  intro agent operation later
  obtain ⟨-, -, -, -, -, -, -, heconomy⟩ :=
    lookups_accounted (.first (policyOf .included)) .initial [] 16
      [.load .boot (some "A") headerAlone]
  exact ⟨rfl, rfl, heconomy operation .boot "A" headerAlone later rfl rfl⟩

end Agent

end ClassSieve
