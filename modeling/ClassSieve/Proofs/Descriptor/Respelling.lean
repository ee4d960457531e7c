import ClassSieve.Proofs.Descriptor.SourceTypes
import ClassSieve.Proofs.Pattern.Separators
import Mathlib.Data.List.Forall2

/-!
# Names and types that differ in separators

Two texts are spellings of one class when dots stand in one where slashes stand in the other. They
have one internal form, and as types of a source they have one descriptor. A word such as `int` has
no other spelling.
-/
namespace ClassSieve

section
variable {α β γ : Type} {R : α → β → Prop} {as : List α} {bs : List β}

theorem map_eq_of_forall₂ {f : α → γ} {g : β → γ} (h : List.Forall₂ R as bs)
    (hR : ∀ a b, R a b → f a = g b) : as.map f = bs.map g := by
  induction h with
  | nil => rfl
  | cons hfirst _ ih => rw [List.map_cons, List.map_cons, hR _ _ hfirst, ih]

theorem any_eq_of_forall₂ {f : α → Bool} {g : β → Bool} (h : List.Forall₂ R as bs)
    (hR : ∀ a b, R a b → f a = g b) : as.any f = bs.any g := by
  have hmap := congrArg (List.any · id) (map_eq_of_forall₂ h hR)
  simpa only [List.any_map, Function.id_comp] using hmap

theorem all_eq_of_forall₂ {f : α → Bool} {g : β → Bool} (h : List.Forall₂ R as bs)
    (hR : ∀ a b, R a b → f a = g b) : as.all f = bs.all g := by
  have hmap := congrArg (List.all · id) (map_eq_of_forall₂ h hR)
  simpa only [List.all_map, Function.id_comp] using hmap

theorem flatMap_eq_of_forall₂ {f : α → List γ} {g : β → List γ} (h : List.Forall₂ R as bs)
    (hR : ∀ a b, R a b → f a = g b) : as.flatMap f = bs.flatMap g := by
  rw [List.flatMap_def, List.flatMap_def, map_eq_of_forall₂ h hR]

end

namespace ClassName

/-- Whether two texts are the same but for dots in the place of slashes and the other way round. -/
def Respelled (name other : String) : Prop :=
  List.Forall₂ (fun c d => c = d ∨ c ∈ ['.', '/'] ∧ d ∈ ['.', '/']) name.toList other.toList

instance : DecidableRel Respelled := fun name other =>
  inferInstanceAs (Decidable (List.Forall₂ _ name.toList other.toList))

variable {name other : String}

theorem slashed_of_mem {c : Char} (h : c ∈ ['.', '/']) : slashed c = '/' := by
  rcases List.mem_pair.1 h with rfl | rfl <;> rfl

theorem Respelled.toInternal_eq (h : Respelled name other) :
    toInternal name = toInternal other := by
  refine congrArg String.ofList (map_eq_of_forall₂ h fun c d hcd => ?_)
  rcases hcd with rfl | ⟨hc, hd⟩
  · rfl
  · rw [slashed_of_mem hc, slashed_of_mem hd]

theorem map_toInternal_eq {names others : List String} (h : List.Forall₂ Respelled names others) :
    names.map toInternal = others.map toInternal :=
  map_eq_of_forall₂ h fun _ _ hname => hname.toInternal_eq

theorem toInternal_of_not_mem (h : '.' ∉ name.toList) : toInternal name = name := by
  have hmap : name.toList.map slashed = name.toList.map id := by
    refine List.map_congr_left fun c hc => if_neg ?_
    rintro rfl
    exact h hc
  rw [toInternal, hmap, List.map_id, String.ofList_toList]

theorem toInternal_eq_iff {word : String} (hdot : '.' ∉ word.toList) (hslash : '/' ∉ word.toList) :
    toInternal name = word ↔ name = word := by
  constructor
  · rintro rfl
    refine (toInternal_of_not_mem fun hmem => hslash ?_).symm
    rw [toInternal, String.toList_ofList]
    exact List.mem_map_of_mem (f := slashed) hmem
  · rintro rfl
    exact toInternal_of_not_mem hdot

end ClassName

open ClassName (Respelled slashed)

namespace Descriptor

theorem lookup_toInternal (name : String) :
    primitiveNames.lookup (ClassName.toInternal name) = primitiveNames.lookup name := by
  have hwords : ∀ entry ∈ primitiveNames, '.' ∉ entry.1.toList ∧ '/' ∉ entry.1.toList := by decide
  generalize primitiveNames = entries at hwords
  induction entries with
  | nil => rfl
  | cons entry rest ih =>
    obtain ⟨⟨hdot, hslash⟩, hrest⟩ := List.forall_mem_cons.1 hwords
    have hsame : (ClassName.toInternal name == entry.1) = (name == entry.1) := by
      rw [Bool.eq_iff_iff, beq_iff_eq, beq_iff_eq, ClassName.toInternal_eq_iff hdot hslash]
    rw [List.lookup_cons, List.lookup_cons, hsame, ih hrest]

theorem ofReversed_map_slashed (cs : List Char) : ofReversed (cs.map slashed) = ofReversed cs := by
  fun_induction ofReversed cs with
  | case1 component ih => exact congrArg ('[' :: ·) ih
  | case2 cs hcs =>
    have hkept : ¬ [']', '['] <+: cs.map slashed := by
      rintro ⟨tail, htail⟩
      obtain ⟨c, cs, rfl, hc, hmore⟩ := List.map_eq_cons_iff.1 htail.symm
      obtain ⟨d, cs, rfl, hd, -⟩ := List.map_eq_cons_iff.1 hmore
      rw [Text.slashed_eq_iff (by decide) (by decide)] at hc hd
      exact hcs cs (by rw [hc, hd])
    have hinternal : String.ofList (cs.map slashed).reverse =
        ClassName.toInternal (String.ofList cs.reverse) := by
      rw [ClassName.toInternal, String.toList_ofList, List.map_reverse]
    rw [ofReversed_element hkept, hinternal, ofElement, ofElement, lookup_toInternal,
      ClassName.toInternal_toInternal]

theorem ofSource_toInternal (type : String) :
    ofSource (ClassName.toInternal type) = ofSource type := by
  rw [ofSource, ofSource, ClassName.toInternal, String.toList_ofList, ← List.map_reverse,
    ofReversed_map_slashed]

theorem ofSource_respelled {type other : String} (h : Respelled type other) :
    ofSource type = ofSource other := by
  rw [← ofSource_toInternal type, h.toInternal_eq, ofSource_toInternal]

theorem takesExactly_congr {types others : List String}
    (h : types.map ofSource = others.map ofSource) (cs : List Char) :
    takesExactly types cs = takesExactly others cs := by
  induction types generalizing others cs with
  | nil => rw [List.map_eq_nil_iff.1 h.symm]
  | cons type types ih =>
    obtain ⟨other, others, rfl, hother, hrest⟩ := List.map_eq_cons_iff.1 h.symm
    rw [takesExactly, takesExactly, hother]
    split
    · exact ih hrest.symm _
    · rfl

end Descriptor

end ClassSieve
