import ClassSieve.Pattern.Trie
import Mathlib.Data.List.Infix

/-!
# Which names a pattern matches

A pattern is matched on characters, with one separator for packages, and a trie follows the bytes
of a name. Both mean the same, since UTF-8 tells where a character begins: the bytes of a text
begin or end with those of another just when its characters do.
-/
namespace ClassSieve

def ClassName.letters (name : String) : List Char := name.toList.map slashed

namespace Pattern
open ClassName (letters)

def Matches (pattern : Pattern) (name : String) : Prop :=
  match pattern.kind with
  | .exact => letters pattern.literal = letters name
  | .leading => letters pattern.literal <+: letters name
  | .trailing => letters pattern.literal <:+ letters name

def IsParsed (pattern : Pattern) : Prop := ∃ text verdict, parse text verdict = .ok pattern

theorem IsParsed.toInternal_literal {pattern : Pattern} (h : pattern.IsParsed) :
    ClassName.toInternal pattern.literal = pattern.literal := by
  obtain ⟨text, verdict, hparse⟩ := h
  rw [parse] at hparse
  split at hparse
  · cases hparse
  · dsimp only at hparse
    split at hparse
    · cases hparse
    · cases hparse
      exact ClassName.toInternal_toInternal _

end Pattern

namespace Text

def utf8 (cs : List Char) : List UInt8 := cs.flatMap String.utf8EncodeChar

theorem utf8_cons (c : Char) (cs : List Char) :
    utf8 (c :: cs) = String.utf8EncodeChar c ++ utf8 cs := List.flatMap_cons

theorem length_utf8 (cs : List Char) : (utf8 cs).length = (String.ofList cs).utf8ByteSize := by
  rw [← String.size_toByteArray, String.toByteArray_ofList, List.utf8Encode, List.size_toByteArray,
    utf8]

theorem eq_of_utf8EncodeChar_append {c d : Char} {more rest : List UInt8}
    (h : String.utf8EncodeChar c ++ more = String.utf8EncodeChar d ++ rest) : c = d := by
  have hdecode (c : Char) (more : List UInt8) :
      (String.utf8EncodeChar c ++ more).toByteArray.utf8DecodeChar? 0 = some c := by
    rw [List.toByteArray_append]
    exact ByteArray.utf8DecodeChar?_utf8EncodeChar_append
  have hc := hdecode c more
  rw [h, hdecode] at hc
  exact (Option.some.inj hc).symm

theorem utf8_prefix {cs ds : List Char} : utf8 cs <+: utf8 ds ↔ cs <+: ds := by
  constructor
  · intro h
    induction cs generalizing ds with
    | nil => exact List.nil_prefix
    | cons c cs ih =>
      obtain ⟨rest, hrest⟩ := h
      rw [utf8_cons, List.append_assoc] at hrest
      cases ds with
      | nil =>
        have hnil := (List.append_eq_nil_iff.1 hrest).1
        exact absurd hnil String.utf8EncodeChar_ne_nil
      | cons d ds =>
        rw [utf8_cons] at hrest
        obtain rfl := eq_of_utf8EncodeChar_append hrest
        rw [List.append_cancel_left_eq] at hrest
        exact (List.cons_prefix_cons).2 ⟨rfl, ih ⟨rest, hrest⟩⟩
  · rintro ⟨rest, rfl⟩
    exact ⟨utf8 rest, List.flatMap_append.symm⟩

theorem utf8_injective {cs ds : List Char} (h : utf8 cs = utf8 ds) : cs = ds := by
  have hforward : cs <+: ds := utf8_prefix.1 (h ▸ List.prefix_refl _)
  have hback : ds <+: cs := utf8_prefix.1 (h ▸ List.prefix_refl _)
  exact hforward.eq_of_length_le hback.length_le

/-- No proper end of a character's bytes looks like the beginning of a character. -/
theorem eq_utf8EncodeChar_of_suffix {c : Char} {b : UInt8} {tail : List UInt8}
    (h : b :: tail <:+ String.utf8EncodeChar c) (hb : b.IsUTF8FirstByte) :
    b :: tail = String.utf8EncodeChar c := by
  obtain ⟨before, hbefore⟩ := h
  have hlength : before.length < (String.utf8EncodeChar c).length := by
    rw [← hbefore, List.length_append, List.length_cons]
    omega
  have hat : (String.utf8EncodeChar c)[before.length] = b := by simp [← hbefore]
  have hzero := UInt8.isUTF8FirstByte_getElem_utf8EncodeChar.1 (hat ▸ hb)
  rwa [List.eq_nil_of_length_eq_zero hzero, List.nil_append] at hbefore

theorem exists_utf8_eq_cons (c : Char) (cs : List Char) :
    ∃ b tail, utf8 (c :: cs) = b :: tail ∧ b.IsUTF8FirstByte := by
  obtain ⟨b, tail, hc⟩ := List.exists_cons_of_ne_nil (String.utf8EncodeChar_ne_nil (c := c))
  refine ⟨b, tail ++ utf8 cs, by rw [utf8_cons, hc, List.cons_append], ?_⟩
  have hzero : 0 < (String.utf8EncodeChar c).length := by simp [hc]
  have hb : (String.utf8EncodeChar c)[0] = b := by simp [hc]
  exact hb ▸ UInt8.isUTF8FirstByte_getElem_utf8EncodeChar.2 rfl

theorem utf8_suffix {cs ds : List Char} : utf8 cs <:+ utf8 ds ↔ cs <:+ ds := by
  constructor
  · intro h
    cases cs with
    | nil => exact List.nil_suffix
    | cons c cs =>
      obtain ⟨b, tail, hbytes, hb⟩ := exists_utf8_eq_cons c cs
      induction ds with
      | nil =>
        rw [hbytes] at h
        cases List.suffix_nil.1 h
      | cons d ds ih =>
        rw [utf8_cons d] at h
        rcases List.suffix_or_suffix_of_suffix h (List.suffix_append _ _) with hshort | hlong
        · exact (ih hshort).trans (List.suffix_cons d ds)
        obtain ⟨front, hfront⟩ := hlong
        rw [← hfront, List.suffix_append_self_iff] at h
        cases front with
        | nil => exact (ih (hfront ▸ List.suffix_refl _)).trans (List.suffix_cons d ds)
        | cons a front =>
          -- The bytes begin within those of `d` and like a character, so they begin with `d`.
          rw [hbytes, List.cons_append, List.cons.injEq] at hfront
          have hd := eq_utf8EncodeChar_of_suffix h (hfront.1 ▸ hb)
          have hall : utf8 (c :: cs) = utf8 (d :: ds) := by
            rw [hbytes, utf8_cons d, ← hd, List.cons_append, hfront.1, hfront.2]
          rw [utf8_injective hall]
  · rintro ⟨rest, rfl⟩
    exact ⟨utf8 rest, List.flatMap_append.symm⟩

end Text

open ClassName (letters)

theorem nameKey_eq (name : String) : nameKey name = Text.utf8 (letters name) := rfl

theorem nameKey_inj {a b : String} : nameKey a = nameKey b ↔ letters a = letters b :=
  ⟨Text.utf8_injective, congrArg Text.utf8⟩

theorem nameKey_prefix {a b : String} : nameKey a <+: nameKey b ↔ letters a <+: letters b :=
  Text.utf8_prefix

theorem nameKey_suffix {a b : String} : nameKey a <:+ nameKey b ↔ letters a <:+ letters b :=
  Text.utf8_suffix

namespace Pattern
variable {pattern other : Pattern}

theorem IsParsed.length_nameKey (h : pattern.IsParsed) :
    (nameKey pattern.literal).length = pattern.literal.utf8ByteSize := by
  rw [nameKey_eq, Text.length_utf8]
  exact congrArg String.utf8ByteSize h.toInternal_literal

theorem IsParsed.literal_eq (h : pattern.IsParsed) (hother : other.IsParsed)
    (hkey : nameKey pattern.literal = nameKey other.literal) :
    pattern.literal = other.literal := by
  rw [← h.toInternal_literal, ← hother.toInternal_literal]
  exact congrArg String.ofList (nameKey_inj.1 hkey)

end Pattern

end ClassSieve
