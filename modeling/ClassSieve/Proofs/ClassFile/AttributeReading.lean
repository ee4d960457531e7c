import ClassSieve.Proofs.ClassFile.Reading

/-!
# Reading attributes

An attribute is skipped by its length, and its body is looked at only when annotations are of
interest and its name is that of their table. What a list of attributes tells is put together from
what each tells.
-/
namespace ClassSieve.ClassFile
open ClassFile.Parser

theorem forall₂_transfer {α β γ : Type} {R : α → γ → Prop} {S : α → β → Prop} {T : β → γ → Prop}
    {as : List α} {bs : List β} {cs : List γ} (h : List.Forall₂ R as cs)
    (hS : List.Forall₂ S as bs) (hT : ∀ a b c, S a b → R a c → T b c) : List.Forall₂ T bs cs := by
  induction hS generalizing cs with
  | nil =>
    cases h
    exact .nil
  | cons hfirst _ ih =>
    cases h with
    | cons hc hrest => exact .cons (hT _ _ _ hfirst hc) (ih hrest)

/-- Whether `names` are put together from what `R` relates to the items. -/
def Gathers {α : Type} (R : α → List String → Prop) (items : List α) (names : List String) : Prop :=
  ∃ found, List.Forall₂ R items found ∧ found.flatten = names

namespace Gathers
variable {α : Type} {R : α → List String → Prop} {items others : List α} {names more : List String}

theorem nil : Gathers R [] [] := ⟨[], .nil, rfl⟩

theorem singleton {item : α} (h : R item names) : Gathers R [item] names :=
  ⟨[names], .cons h .nil, List.append_nil names⟩

theorem append (h : Gathers R items names) (hothers : Gathers R others more) :
    Gathers R (items ++ others) (names ++ more) := by
  obtain ⟨found, hfound, rfl⟩ := h
  obtain ⟨rest, hrest, rfl⟩ := hothers
  exact ⟨found ++ rest, List.rel_append hfound hrest, List.flatten_append⟩

theorem transfer {β : Type} {S : α → β → Prop} {T : β → List String → Prop} {parts : List β}
    (h : Gathers R items names) (hparts : List.Forall₂ S items parts)
    (hT : ∀ a b found, S a b → R a found → T b found) : Gathers T parts names := by
  obtain ⟨found, hfound, rfl⟩ := h
  exact ⟨found, forall₂_transfer hfound hparts hT, rfl⟩

end Gathers

namespace Outline
variable {pool : Pool} {interest : Interest} {index : UInt16} {body : Bytes} {found : List String}
  {pos : Nat}

theorem reads_attribute (hlength : body.length < 0x100000000)
    (hempty : interest.isEmpty = true → found = [])
    (hasked : interest.isEmpty = false → ∃ raw start,
      (∀ offset, pool.rawText index offset = .ok (start, raw)) ∧
      (raw = asciiBytes visibleAnnotations → ∃ table extra, body = table ++ extra ∧
        ∀ pos, Reads (AnnotationTable.read pool interest) pos table found) ∧
      (raw ≠ asciiBytes visibleAnnotations → found = [])) :
    Reads (readAttribute pool interest) pos
      (encodeU2 index ++ encodeU4 (UInt32.ofNat body.length) ++ body) found := by
  have hbody : body.length = (UInt32.ofNat body.length).toNat := by
    rw [UInt32.toNat_ofNat', Nat.mod_eq_of_lt hlength]
  rw [List.append_assoc]
  refine .position (Reads.bind (.u2 index) (Reads.bind (.u4 _) ?_))
  refine Reads.bind_last (.carve body hbody) ?_
  cases hinterest : interest.isEmpty with
  | true =>
    rw [if_pos rfl, hempty hinterest]
    exact .pure []
  | false =>
    obtain ⟨raw, start, hraw, htable, hplain⟩ := hasked hinterest
    rw [if_neg Bool.false_ne_true]
    refine .lift (hraw _) ?_
    dsimp only
    split
    · rename_i hvisible
      obtain ⟨table, extra, rfl, hread⟩ := htable hvisible
      exact (hread _).within
    · rename_i hother
      rw [hplain hother]
      exact .pure []

def AttributesRead (pool : Pool) (interest : Interest) : List Bytes → List String → Prop :=
  Gathers fun bytes found => ∀ pos, Reads (readAttribute pool interest) pos bytes found

theorem reads_readAttributes {parts : List Bytes} {names : List String}
    (h : AttributesRead pool interest parts names) (hcount : parts.length ≤ 65535) :
    Reads (readAttributes pool interest) pos
      (encodeU2 (UInt16.ofNat parts.length) ++ parts.flatten) names := by
  obtain ⟨found, hfound, rfl⟩ := h
  exact (Reads.counted hfound hcount).map

end Outline

end ClassSieve.ClassFile
