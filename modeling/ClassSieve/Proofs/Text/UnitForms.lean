import ClassSieve.Text.ModifiedUtf8
import Mathlib.Algebra.Group.Nat.Defs
import Mathlib.Tactic.SplitIfs

/-!
# The forms of a unit

A unit stands in one, two or three bytes: the marks of each form are fixed bits, and the bits that
they leave free are those of the unit. A row of forms can be read in one way only, which is how
`decodeUnits` reads it. Of the forms that hold a unit `encodeUnit` writes the canonical one.
-/
namespace ClassSieve.Text.ModifiedUtf8

theorem toNat_append {m n : Nat} (x : BitVec m) (y : BitVec n) :
    (x ++ y).toNat = x.toNat * 2 ^ n + y.toNat := by
  rw [BitVec.toNat_append, ← Nat.shiftLeft_add_eq_or_of_lt y.isLt, Nat.shiftLeft_eq]

/-- The bits of a unit as they are spread over one, two or three bytes. -/
inductive UnitForm where
  | one (a : BitVec 7)
  | two (a : BitVec 5) (b : BitVec 6)
  | three (a : BitVec 4) (b c : BitVec 6)
  deriving DecidableEq

namespace UnitForm

def bytes : UnitForm → List UInt8
  | one a => [.ofBitVec (0b0#1 ++ a)]
  | two a b => [.ofBitVec (0b110#3 ++ a), .ofBitVec (0b10#2 ++ b)]
  | three a b c => [.ofBitVec (0b1110#4 ++ a), .ofBitVec (0b10#2 ++ b), .ofBitVec (0b10#2 ++ c)]

def unit : UnitForm → UInt16
  | one a => .ofBitVec (0#9 ++ a)
  | two a b => .ofBitVec (0#5 ++ (a ++ b))
  | three a b c => .ofBitVec (a ++ (b ++ c))

/-- One byte for 1 to 0x7F, two bytes for 0 and 0x80 to 0x7FF, three bytes above. -/
def IsCanonical (form : UnitForm) : Prop :=
  let n := form.unit.toNat
  match form with
  | one _ => 1 ≤ n ∧ n ≤ 0x7F
  | two .. => n = 0 ∨ 0x80 ≤ n ∧ n ≤ 0x7FF
  | three .. => 0x800 ≤ n

instance : DecidablePred IsCanonical
  | one _ => inferInstanceAs (Decidable (_ ∧ _))
  | two .. => inferInstanceAs (Decidable (_ ∨ _))
  | three .. => inferInstanceAs (Decidable (_ ≤ _))

end UnitForm

/-- The bytes of a unit, told by the ranges in which they lie. -/
inductive UnitBytes : List UInt8 → UInt16 → Prop
  | one {a : UInt8} (ha : a.toNat < 0x80) : UnitBytes [a] (UInt16.ofNat a.toNat)
  | two {a b : UInt8} (ha : 0xC0 ≤ a.toNat ∧ a.toNat < 0xE0) (hb : isTail b = true) :
    UnitBytes [a, b] (unitOfTwo a b)
  | three {a b c : UInt8} (ha : 0xE0 ≤ a.toNat ∧ a.toNat < 0xF0) (hb : isTail b = true)
    (hc : isTail c = true) : UnitBytes [a, b, c] (unitOfThree a b c)

theorem isTail_iff {b : UInt8} : isTail b = true ↔ 0x80 ≤ b.toNat ∧ b.toNat < 0xC0 := by
  simp [isTail]

section
variable (a : BitVec 7) (b : BitVec 5) (c : BitVec 4) (d : BitVec 6)

theorem toNat_single : (UInt8.ofBitVec (0b0#1 ++ a)).toNat = a.toNat := by
  rw [UInt8.toNat_ofBitVec, toNat_append, BitVec.toNat_zero]
  omega

theorem toNat_firstOfTwo : (UInt8.ofBitVec (0b110#3 ++ b)).toNat = 0xC0 + b.toNat := by
  rw [UInt8.toNat_ofBitVec, toNat_append]
  rfl

theorem toNat_firstOfThree : (UInt8.ofBitVec (0b1110#4 ++ c)).toNat = 0xE0 + c.toNat := by
  rw [UInt8.toNat_ofBitVec, toNat_append]
  rfl

theorem toNat_tail : (UInt8.ofBitVec (0b10#2 ++ d)).toNat = 0x80 + d.toNat := by
  rw [UInt8.toNat_ofBitVec, toNat_append]
  rfl

theorem isTail_tail : isTail (.ofBitVec (0b10#2 ++ d)) = true := by
  have hd := d.isLt
  rw [isTail_iff, toNat_tail]
  omega

end

namespace UnitForm

theorem unitBytes (form : UnitForm) : UnitBytes form.bytes form.unit := by
  cases form with
  | one a =>
    have ha := a.isLt
    have hunit : (one a).unit = UInt16.ofNat (UInt8.ofBitVec (0b0#1 ++ a)).toNat := by
      rw [← UInt16.toNat_inj, UInt16.toNat_ofNat', toNat_single, unit, UInt16.toNat_ofBitVec,
        toNat_append, BitVec.toNat_zero]
      omega
    rw [hunit]
    exact .one (by rwa [toNat_single])
  | two a b =>
    have ha := a.isLt
    have hb := b.isLt
    have hunit : (two a b).unit =
        unitOfTwo (.ofBitVec (0b110#3 ++ a)) (.ofBitVec (0b10#2 ++ b)) := by
      rw [← UInt16.toNat_inj, unitOfTwo, UInt16.toNat_ofNat', toNat_firstOfTwo, toNat_tail, unit,
        UInt16.toNat_ofBitVec, toNat_append, toNat_append, BitVec.toNat_zero]
      omega
    rw [hunit]
    exact .two (by rw [toNat_firstOfTwo]; omega) (isTail_tail b)
  | three a b c =>
    have ha := a.isLt
    have hb := b.isLt
    have hc := c.isLt
    have hunit : (three a b c).unit = unitOfThree (.ofBitVec (0b1110#4 ++ a))
        (.ofBitVec (0b10#2 ++ b)) (.ofBitVec (0b10#2 ++ c)) := by
      rw [← UInt16.toNat_inj, unitOfThree, UInt16.toNat_ofNat', toNat_firstOfThree, toNat_tail,
        toNat_tail, unit, UInt16.toNat_ofBitVec, toNat_append, toNat_append]
      omega
    rw [hunit]
    exact .three (by rw [toNat_firstOfThree]; omega) (isTail_tail b) (isTail_tail c)

theorem eq_of_unit_eq {form other : UnitForm} (hlength : form.bytes.length = other.bytes.length)
    (hunit : form.unit = other.unit) : form = other := by
  have hbits := UInt16.toNat_inj.2 hunit
  cases form with
  | one a =>
    cases other with
    | one d =>
      simp only [unit, UInt16.toNat_ofBitVec, toNat_append] at hbits
      rw [BitVec.eq_of_toNat_eq (by omega : a.toNat = d.toNat)]
    | two d e => simp [bytes] at hlength
    | three d e f => simp [bytes] at hlength
  | two a b =>
    cases other with
    | one d => simp [bytes] at hlength
    | two d e =>
      have hb := b.isLt
      have he := e.isLt
      simp only [unit, UInt16.toNat_ofBitVec, toNat_append] at hbits
      rw [BitVec.eq_of_toNat_eq (by omega : a.toNat = d.toNat),
        BitVec.eq_of_toNat_eq (by omega : b.toNat = e.toNat)]
    | three d e f => simp [bytes] at hlength
  | three a b c =>
    cases other with
    | one d => simp [bytes] at hlength
    | two d e => simp [bytes] at hlength
    | three d e f =>
      have hb := b.isLt
      have hc := c.isLt
      have he := e.isLt
      have hf := f.isLt
      simp only [unit, UInt16.toNat_ofBitVec, toNat_append] at hbits
      rw [BitVec.eq_of_toNat_eq (by omega : a.toNat = d.toNat),
        BitVec.eq_of_toNat_eq (by omega : b.toNat = e.toNat),
        BitVec.eq_of_toNat_eq (by omega : c.toNat = f.toNat)]

end UnitForm

namespace UnitBytes
variable {bs cs rest tail : List UInt8} {u v : UInt16}

theorem exists_bytes (h : UnitBytes bs u) : ∃ form : UnitForm, form.bytes = bs := by
  have htail {b : UInt8} (hb : isTail b = true) :
      UInt8.ofBitVec (0b10#2 ++ BitVec.ofNat 6 (b.toNat - 0x80)) = b := by
    rw [isTail_iff] at hb
    rw [← UInt8.toNat_inj, toNat_tail, BitVec.toNat_ofNat]
    omega
  cases h with
  | @one a ha =>
    refine ⟨.one (BitVec.ofNat 7 a.toNat), ?_⟩
    have hbyte : UInt8.ofBitVec (0b0#1 ++ BitVec.ofNat 7 a.toNat) = a := by
      rw [← UInt8.toNat_inj, toNat_single, BitVec.toNat_ofNat]
      omega
    rw [UnitForm.bytes, hbyte]
  | @two a b ha hb =>
    refine ⟨.two (BitVec.ofNat 5 (a.toNat - 0xC0)) (BitVec.ofNat 6 (b.toNat - 0x80)), ?_⟩
    have hbyte : UInt8.ofBitVec (0b110#3 ++ BitVec.ofNat 5 (a.toNat - 0xC0)) = a := by
      rw [← UInt8.toNat_inj, toNat_firstOfTwo, BitVec.toNat_ofNat]
      omega
    rw [UnitForm.bytes, hbyte, htail hb]
  | @three a b c ha hb hc =>
    refine ⟨.three (BitVec.ofNat 4 (a.toNat - 0xE0)) (BitVec.ofNat 6 (b.toNat - 0x80))
      (BitVec.ofNat 6 (c.toNat - 0x80)), ?_⟩
    have hbyte : UInt8.ofBitVec (0b1110#4 ++ BitVec.ofNat 4 (a.toNat - 0xE0)) = a := by
      rw [← UInt8.toNat_inj, toNat_firstOfThree, BitVec.toNat_ofNat]
      omega
    rw [UnitForm.bytes, hbyte, htail hb, htail hc]

/-- The first byte tells how many bytes belong to the unit. -/
theorem append_inj (hbs : UnitBytes bs u) (hcs : UnitBytes cs v) (h : bs ++ rest = cs ++ tail) :
    bs = cs ∧ u = v ∧ rest = tail := by
  cases hbs with
  | one ha =>
    cases hcs with
    | one hd =>
      simp only [List.cons_append, List.nil_append, List.cons.injEq] at h
      obtain ⟨rfl, rfl⟩ := h
      exact ⟨rfl, rfl, rfl⟩
    | two hd =>
      obtain ⟨rfl, -⟩ := List.cons.inj h
      omega
    | three hd =>
      obtain ⟨rfl, -⟩ := List.cons.inj h
      omega
  | two ha =>
    cases hcs with
    | one hd =>
      obtain ⟨rfl, -⟩ := List.cons.inj h
      omega
    | two hd =>
      simp only [List.cons_append, List.nil_append, List.cons.injEq] at h
      obtain ⟨rfl, rfl, rfl⟩ := h
      exact ⟨rfl, rfl, rfl⟩
    | three hd =>
      obtain ⟨rfl, -⟩ := List.cons.inj h
      omega
  | three ha =>
    cases hcs with
    | one hd =>
      obtain ⟨rfl, -⟩ := List.cons.inj h
      omega
    | two hd =>
      obtain ⟨rfl, -⟩ := List.cons.inj h
      omega
    | three hd =>
      simp only [List.cons_append, List.nil_append, List.cons.injEq] at h
      obtain ⟨rfl, rfl, rfl, rfl⟩ := h
      exact ⟨rfl, rfl, rfl⟩

theorem exists_form (h : UnitBytes bs u) : ∃ form : UnitForm, form.bytes = bs ∧ form.unit = u := by
  obtain ⟨form, rfl⟩ := h.exists_bytes
  have hsame : form.bytes ++ [] = form.bytes ++ [] := rfl
  exact ⟨form, rfl, (form.unitBytes.append_inj h hsame).2.1⟩

theorem decodeUnits_append (h : UnitBytes bs u) (pos : Nat) (rest : List UInt8) :
    decodeUnits pos (bs ++ rest) = (decodeUnits (pos + bs.length) rest).map (u :: ·) := by
  cases h with
  | one ha =>
    rw [List.singleton_append, decodeUnits.eq_def]
    simp only [if_pos ha, List.length_singleton]
  | @two a b ha hb =>
    have hone : ¬ a.toNat < 0x80 := by omega
    simp only [List.cons_append, List.nil_append, List.length_cons, List.length_nil, decodeUnits,
      if_neg hone, if_pos ha, if_pos hb]
  | @three a b c ha hb hc =>
    have hone : ¬ a.toNat < 0x80 := by omega
    have htwo : ¬ (0xC0 ≤ a.toNat ∧ a.toNat < 0xE0) := by omega
    simp only [List.cons_append, List.nil_append, List.length_cons, List.length_nil, decodeUnits,
      if_neg hone, if_neg htwo, if_pos ha, hb, hc]
    simp

end UnitBytes

namespace UnitForm

theorem append_inj {form other : UnitForm} {rest tail : List UInt8}
    (h : form.bytes ++ rest = other.bytes ++ tail) : form = other ∧ rest = tail := by
  obtain ⟨hbytes, hunit, hrest⟩ := form.unitBytes.append_inj other.unitBytes h
  exact ⟨eq_of_unit_eq (congrArg List.length hbytes) hunit, hrest⟩

end UnitForm

theorem unitBytes_encodeUnit (u : UInt16) : UnitBytes (encodeUnit u) u := by
  have hu := u.toNat_lt
  by_cases hone : 1 ≤ u.toNat ∧ u.toNat < 0x80
  · have ha : (UInt8.ofNat u.toNat).toNat = u.toNat := by
      rw [UInt8.toNat_ofNat']
      omega
    have hbytes := UnitBytes.one (a := UInt8.ofNat u.toNat) (by omega)
    rw [ha, UInt16.ofNat_toNat] at hbytes
    rw [encodeUnit, if_pos hone]
    exact hbytes
  · by_cases htwo : u.toNat < 0x800
    · have ha : (UInt8.ofNat (0xC0 + u.toNat / 0x40)).toNat = 0xC0 + u.toNat / 0x40 := by
        rw [UInt8.toNat_ofNat']
        omega
      have hb : (UInt8.ofNat (0x80 + u.toNat % 0x40)).toNat = 0x80 + u.toNat % 0x40 := by
        rw [UInt8.toNat_ofNat']
        omega
      have hunit : (0xC0 + u.toNat / 0x40 - 0xC0) * 0x40 + (0x80 + u.toNat % 0x40 - 0x80) =
          u.toNat := by omega
      have hbytes := UnitBytes.two (a := UInt8.ofNat (0xC0 + u.toNat / 0x40))
        (b := UInt8.ofNat (0x80 + u.toNat % 0x40)) (by omega) (isTail_iff.2 (by omega))
      rw [unitOfTwo, ha, hb, hunit, UInt16.ofNat_toNat] at hbytes
      rw [encodeUnit, if_neg hone, if_pos htwo]
      exact hbytes
    · have ha : (UInt8.ofNat (0xE0 + u.toNat / 0x1000)).toNat = 0xE0 + u.toNat / 0x1000 := by
        rw [UInt8.toNat_ofNat']
        omega
      have hb : (UInt8.ofNat (0x80 + u.toNat / 0x40 % 0x40)).toNat =
          0x80 + u.toNat / 0x40 % 0x40 := by
        rw [UInt8.toNat_ofNat']
        omega
      have hc : (UInt8.ofNat (0x80 + u.toNat % 0x40)).toNat = 0x80 + u.toNat % 0x40 := by
        rw [UInt8.toNat_ofNat']
        omega
      have hunit : (0xE0 + u.toNat / 0x1000 - 0xE0) * 0x1000 +
          (0x80 + u.toNat / 0x40 % 0x40 - 0x80) * 0x40 + (0x80 + u.toNat % 0x40 - 0x80) =
            u.toNat := by omega
      have hbytes := UnitBytes.three (a := UInt8.ofNat (0xE0 + u.toNat / 0x1000))
        (b := UInt8.ofNat (0x80 + u.toNat / 0x40 % 0x40))
        (c := UInt8.ofNat (0x80 + u.toNat % 0x40)) (by omega) (isTail_iff.2 (by omega))
        (isTail_iff.2 (by omega))
      rw [unitOfThree, ha, hb, hc, hunit, UInt16.ofNat_toNat] at hbytes
      rw [encodeUnit, if_neg hone, if_neg htwo]
      exact hbytes

namespace UnitForm

theorem length_encodeUnit_unit_iff (form : UnitForm) :
    (encodeUnit form.unit).length = form.bytes.length ↔ form.IsCanonical := by
  have hlength (u : UInt16) : (encodeUnit u).length =
      if 1 ≤ u.toNat ∧ u.toNat < 0x80 then 1 else if u.toNat < 0x800 then 2 else 3 := by
    simp only [encodeUnit]
    split
    · rfl
    · split <;> rfl
  rw [hlength]
  cases form with
  | one a =>
    have ha := a.isLt
    have hunit : (one a).unit.toNat < 0x80 := by
      rw [unit, UInt16.toNat_ofBitVec, toNat_append, BitVec.toNat_zero]
      omega
    simp only [IsCanonical, bytes, List.length_singleton]
    split_ifs <;> omega
  | two a b =>
    have ha := a.isLt
    have hb := b.isLt
    have hunit : (two a b).unit.toNat < 0x800 := by
      rw [unit, UInt16.toNat_ofBitVec, toNat_append, toNat_append, BitVec.toNat_zero]
      omega
    simp only [IsCanonical, bytes, List.length_cons, List.length_nil]
    split_ifs <;> omega
  | three a b c =>
    simp only [IsCanonical, bytes, List.length_cons, List.length_nil]
    split_ifs <;> omega

theorem encodeUnit_unit_iff (form : UnitForm) :
    encodeUnit form.unit = form.bytes ↔ form.IsCanonical := by
  rw [← length_encodeUnit_unit_iff]
  constructor
  · exact congrArg List.length
  · intro hlength
    obtain ⟨written, hbytes, hunit⟩ := (unitBytes_encodeUnit form.unit).exists_form
    rw [← hbytes] at hlength ⊢
    rw [eq_of_unit_eq hlength hunit]

end UnitForm

end ClassSieve.Text.ModifiedUtf8
