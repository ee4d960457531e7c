import ClassSieve.Proofs.Cache.Lookup
import ClassSieve.Proofs.Rules.Decision

/-!
# Runs of an agent and what they leave stored

The history of a run tells which policies were in force and which bytes were supplied for a class
since it was last redefined. Every stored entry is explained by it: a resolved one by the header of
some of these bytes, and by the decision of the policy in force when it is of its generation; a
failure by a policy that was in force and could not read some of these bytes.
-/
namespace ClassSieve
open ClassFile

def Policy.idle : Policy := .ofRules (.ofPatterns [] .excludeVeto) []

namespace Operation

def lookup? : Operation → Option (LoaderKey × String × Bytes)
  | .load loader (some name) bytes => some (loader, name, bytes)
  | .redefine loader name bytes => some (loader, name, bytes)
  | _ => none

def policy? : Operation → Option Policy
  | .replacePolicy policy => some policy
  | _ => none

def supply (loader : LoaderKey) (name : String) (given : List Bytes) : Operation → List Bytes
  | .load other (some otherName) bytes =>
    if other = loader ∧ otherName = name then bytes :: given else given
  | .redefine other otherName bytes =>
    if other = loader ∧ otherName = name then [bytes] else given
  | _ => given

variable {operation : Operation} {loader : LoaderKey} {name : String} {bytes : Bytes}

theorem eq_of_lookup? (h : operation.lookup? = some (loader, name, bytes)) :
    operation = .load loader (some name) bytes ∨ operation = .redefine loader name bytes := by
  cases operation with
  | load other otherName otherBytes =>
    cases otherName with
    | none => cases h
    | some otherName =>
      cases h
      exact Or.inl rfl
  | redefine other otherName otherBytes =>
    cases h
    exact Or.inr rfl
  | _ => cases h

theorem supply_of_lookup?_ne (h : ∀ bytes, operation.lookup? ≠ some (loader, name, bytes))
    (given : List Bytes) : operation.supply loader name given = given := by
  cases operation with
  | load other otherName bytes =>
    cases otherName with
    | none => rfl
    | some otherName =>
      rw [supply, if_neg]
      rintro ⟨rfl, rfl⟩
      exact h bytes rfl
  | redefine other otherName bytes =>
    rw [supply, if_neg]
    rintro ⟨rfl, rfl⟩
    exact h bytes rfl
  | _ => rfl

theorem mem_supply_of_lookup? (h : operation.lookup? = some (loader, name, bytes))
    (given : List Bytes) : bytes ∈ operation.supply loader name given := by
  rcases eq_of_lookup? h with rfl | rfl
  · simp [supply]
  · simp [supply]

end Operation

namespace Agent

def withCache (edition : Edition) (loaders : Loaders) (handles : List Handle) (capacity : Nat) :
    Agent :=
  ⟨edition, loaders, handles, .ofCapacity capacity loaders⟩

def installed (first : Policy) (past : List Operation) : List Policy :=
  first :: past.filterMap Operation.policy?

/-- The bytes supplied for a class since it was last redefined, the latest first. -/
def supplied (loader : LoaderKey) (name : String) (past : List Operation) : List Bytes :=
  past.foldl (fun given operation => operation.supply loader name given) []

theorem run_append (agent : Agent) (past later : List Operation) :
    (agent.run (past ++ later)).1 = ((agent.run past).1.run later).1 := by
  induction past generalizing agent with
  | nil => rfl
  | cons operation rest ih => exact ih (agent.step operation).1

theorem supplied_concat (loader : LoaderKey) (name : String) (past : List Operation)
    (operation : Operation) :
    supplied loader name (past ++ [operation]) =
      operation.supply loader name (supplied loader name past) := by
  rw [supplied, List.foldl_append]
  rfl

theorem installed_concat (first : Policy) (past : List Operation) (operation : Operation) :
    installed first (past ++ [operation]) =
      installed first past ++ operation.policy?.toList := by
  cases operation <;> simp [installed, List.filterMap_append, Operation.policy?]

theorem step_edition (agent : Agent) (operation : Operation) :
    (agent.step operation).1.edition =
      match operation.policy? with
      | some policy => agent.edition.replace policy
      | none => agent.edition := by
  cases operation with
  | retire handle =>
    simp only [step, retire, Operation.policy?]
    split <;> rfl
  | _ => rfl

variable {operation : Operation} {loader : LoaderKey} {name : String} {bytes : Bytes}

theorem step_lookup (agent : Agent)
    (h : operation.lookup? = some (loader, name, bytes)) :
    ∃ answer stored, (agent.step operation).2 = .lookup answer ∧
      answer.entry = Entry.answer agent.edition name bytes stored ∧
      ∀ entry, stored = some entry →
        operation = .load loader (some name) bytes ∧
          agent.cache.stored? loader name = some entry := by
  rcases Operation.eq_of_lookup? h with rfl | rfl
  · refine ⟨_, _, rfl, Cache.getOrCompute_entry .., fun entry hentry => ⟨rfl, ?_⟩⟩
    exact Cache.stored?_of_sweepIfDue hentry
  · exact ⟨_, none, rfl, Cache.redefine_entry .., fun entry hentry => nomatch hentry⟩

theorem stored?_of_step {agent : Agent} {entry : Entry}
    (h : (agent.step operation).1.cache.stored? loader name = some entry) :
    (∃ bytes answer, operation.lookup? = some (loader, name, bytes) ∧
      (agent.step operation).2 = .lookup answer ∧ entry = answer.entry) ∨
    ((∀ bytes, operation.lookup? ≠ some (loader, name, bytes)) ∧
      agent.cache.stored? loader name = some entry) := by
  cases operation with
  | load other otherName bytes =>
    cases otherName with
    | none => exact Or.inr ⟨by simp [Operation.lookup?], h⟩
    | some otherName =>
      have hlookup := Cache.stored?_of_getOrCompute h
      split at hlookup
      · next hkey =>
        rw [← hkey.1, ← hkey.2]
        exact Or.inl ⟨bytes, _, rfl, rfl, hlookup⟩
      · next hkey =>
        exact Or.inr ⟨fun _ heq => hkey (by cases heq; exact ⟨rfl, rfl⟩), hlookup⟩
  | redefine other otherName bytes =>
    have hlookup := Cache.stored?_of_redefine h
    split at hlookup
    · next hkey =>
      rw [← hkey.1, ← hkey.2]
      exact Or.inl ⟨bytes, _, rfl, rfl, hlookup⟩
    · next hkey =>
      exact Or.inr ⟨fun _ heq => hkey (by cases heq; exact ⟨rfl, rfl⟩), hlookup⟩
  | register => exact Or.inr ⟨by simp [Operation.lookup?], h⟩
  | retire handle =>
    refine Or.inr ⟨by simp [Operation.lookup?], ?_⟩
    simp only [step, retire] at h
    split at h <;> exact h
  | peek other otherName => exact Or.inr ⟨by simp [Operation.lookup?], Cache.stored?_of_peek h⟩
  | findAny otherName => exact Or.inr ⟨by simp [Operation.lookup?], Cache.stored?_of_findAny h⟩
  | invalidate other otherName =>
    exact Or.inr ⟨by simp [Operation.lookup?], Cache.stored?_of_invalidate h⟩
  | evictLoader other => exact Or.inr ⟨by simp [Operation.lookup?], Cache.stored?_of_evictLoader h⟩
  | sweep => exact Or.inr ⟨by simp [Operation.lookup?], Cache.stored?_of_sweep h⟩
  | replacePolicy policy => exact Or.inr ⟨by simp [Operation.lookup?], h⟩

end Agent

end ClassSieve
