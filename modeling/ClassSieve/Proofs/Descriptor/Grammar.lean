import ClassSieve.Descriptor
import Mathlib.Data.List.Basic

/-!
# The grammar of descriptors

A type is spelled by one letter, by a class name between `L` and `;`, or by `[` and the spelling of
its components. No spelling is the beginning of another, so a row of them can be read in one way
only: the parameters of a method are told apart without a mark between them, also where a class name
holds parentheses.
-/
namespace ClassSieve.Descriptor
open Text

/-- The spellings of types, when those without a name are spelled by one of `letters`. -/
inductive Spelling (letters : List Char) : List Char → Prop
  | letter {c : Char} (hc : c ∈ letters) : Spelling letters [c]
  | object {name : List Char} (hname : ';' ∉ name) : Spelling letters ('L' :: (name ++ [';']))
  | array {component : List Char} (hcomponent : Spelling letters component) :
    Spelling letters ('[' :: component)

def typeLetters : List Char := 'V' :: primitiveLetters

namespace Spelling
variable {letters more cs ds rest tail : List Char}

theorem mono (hletters : letters ⊆ more) (h : Spelling letters cs) : Spelling more cs := by
  induction h with
  | letter hc => exact .letter (hletters hc)
  | object hname => exact .object hname
  | array _ ih => exact .array ih

theorem ofPrimitive (h : Spelling primitiveLetters cs) : Spelling typeLetters cs :=
  h.mono (List.subset_cons_self _ _)

/-- Whatever follows them, two spellings of which one begins the other are the same. -/
theorem append_inj (hcs : Spelling typeLetters cs) (hds : Spelling typeLetters ds)
    (h : cs ++ rest = ds ++ tail) : cs = ds ∧ rest = tail := by
  have hmarks : 'L' ∉ typeLetters ∧ '[' ∉ typeLetters := by decide
  induction hcs generalizing ds with
  | @letter c hc =>
    cases hds with
    | letter hd => simpa using h
    | object hname =>
      obtain ⟨rfl, -⟩ := List.cons.inj h
      exact absurd hc hmarks.1
    | array hcomponent =>
      obtain ⟨rfl, -⟩ := List.cons.inj h
      exact absurd hc hmarks.2
  | @object name hname =>
    cases hds with
    | letter hd =>
      obtain ⟨rfl, -⟩ := List.cons.inj h
      exact absurd hd hmarks.1
    | @object other hother =>
      have hbody : name ++ ';' :: rest = other ++ ';' :: tail := by
        simpa using (List.cons.inj h).2
      -- Both names end at the first semicolon.
      have hcut := congrArg (cutFirst (· = ';')) hbody
      rw [cutFirst_of_not_mem hname, cutFirst_of_not_mem hother] at hcut
      obtain ⟨rfl, rfl⟩ := Prod.mk.inj (Option.some.inj hcut)
      exact ⟨rfl, rfl⟩
    | array hcomponent => exact absurd (List.cons.inj h).1 (by decide)
  | array _ ih =>
    cases hds with
    | letter hd =>
      obtain ⟨rfl, -⟩ := List.cons.inj h
      exact absurd hd hmarks.2
    | object hname => exact absurd (List.cons.inj h).1 (by decide)
    | array hcomponent =>
      obtain ⟨rfl, hrest⟩ := ih hcomponent (List.cons.inj h).2
      exact ⟨rfl, hrest⟩

theorem ne_close (h : Spelling typeLetters cs) : cs ++ rest ≠ ')' :: tail := by
  have hclose : ')' ∉ typeLetters := by decide
  intro heq
  cases h with
  | letter hc =>
    obtain ⟨rfl, -⟩ := List.cons.inj heq
    exact hclose hc
  | object hname => exact absurd (List.cons.inj heq).1 (by decide)
  | array hcomponent => exact absurd (List.cons.inj heq).1 (by decide)

theorem nextParameter?_append (h : Spelling primitiveLetters cs) (rest : List Char) :
    nextParameter? (cs ++ rest) = some (cs, rest) := by
  induction h with
  | @letter c hc =>
    have hmarks : 'L' ∉ primitiveLetters ∧ '[' ∉ primitiveLetters := by decide
    have harray : c ≠ '[' := fun heq => hmarks.2 (heq ▸ hc)
    have hobject : c ≠ 'L' := fun heq => hmarks.1 (heq ▸ hc)
    simp [nextParameter?, harray, hobject, hc]
  | @object name hname =>
    have hcut : cutFirst (· = ';') (name ++ ';' :: rest) = some (name, rest) :=
      cutFirst_of_not_mem hname
    simp [nextParameter?, hcut]
  | array _ ih => simp [nextParameter?, ih]

end Spelling

theorem parametersFrom_of_none {cs : List Char} (h : nextParameter? cs = none) :
    parametersFrom cs = [] := by
  rw [parametersFrom]
  split
  · rfl
  · next hsome => cases h.symm.trans hsome

theorem parametersFrom_of_some {cs type rest : List Char}
    (h : nextParameter? cs = some (type, rest)) :
    parametersFrom cs = type :: parametersFrom rest := by
  rw [parametersFrom]
  split
  · next hnone => cases h.symm.trans hnone
  · next hsome =>
    obtain ⟨rfl, rfl⟩ := Prod.mk.inj (Option.some.inj (h.symm.trans hsome))
    rfl

theorem parametersFrom_append {types : List (List Char)}
    (htypes : ∀ cs ∈ types, Spelling primitiveLetters cs) (result : List Char) :
    parametersFrom (types.flatten ++ ')' :: result) = types := by
  induction types with
  | nil => exact parametersFrom_of_none (by simp [nextParameter?, primitiveLetters])
  | cons cs types ih =>
    obtain ⟨hcs, htypes⟩ := List.forall_mem_cons.1 htypes
    rw [List.flatten_cons, List.append_assoc, parametersFrom_of_some (hcs.nextParameter?_append _),
      ih htypes]

theorem parameters_append {types : List (List Char)}
    (htypes : ∀ cs ∈ types, Spelling primitiveLetters cs) {descriptor : String}
    {result : List Char}
    (hdescriptor : descriptor.toList = '(' :: (types.flatten ++ ')' :: result)) :
    parameters descriptor = types.map String.ofList := by
  rw [parameters, hdescriptor]
  exact congrArg (List.map String.ofList) (parametersFrom_append htypes result)

end ClassSieve.Descriptor
