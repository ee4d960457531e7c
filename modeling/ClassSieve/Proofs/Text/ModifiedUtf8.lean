import ClassSieve.Proofs.Text.UnitForms

/-!
# Reading modified UTF-8 back

Every text can be read back from its encoding, in which no zero byte occurs. Hence two texts with
the same encoding are the same.
-/
namespace ClassSieve.Text

theorem char_toNat_ranges (c : Char) :
    c.toNat < 0xD800 ∨ 0xE000 ≤ c.toNat ∧ c.toNat < 0x110000 := by
  rcases c.valid with h | h
  · exact Or.inl h
  · exact Or.inr ⟨by have := h.1; simp only [Char.toNat, UInt32.toNat] at *; omega,
      by have := h.2; simp only [Char.toNat, UInt32.toNat] at *; omega⟩

theorem ofUnits?_single {u : UInt16} (hu : u.toNat < 0xD800 ∨ 0xE000 ≤ u.toNat)
    (rest : List UInt16) :
    ofUnits? (u :: rest) = (ofUnits? rest).map (Char.ofNat u.toNat :: ·) := by
  have hhigh : isHighSurrogate u = false := by
    simp only [isHighSurrogate, Bool.and_eq_false_iff, decide_eq_false_iff_not]
    omega
  have hlow : isLowSurrogate u = false := by
    simp only [isLowSurrogate, Bool.and_eq_false_iff, decide_eq_false_iff_not]
    omega
  cases rest with
  | nil => simp [ofUnits?, hhigh, hlow]
  | cons v rest => simp [ofUnits?, hhigh, hlow]

theorem ofUnits?_pair {u v : UInt16} (hu : isHighSurrogate u = true)
    (hv : isLowSurrogate v = true) (rest : List UInt16) :
    ofUnits? (u :: v :: rest) = (ofUnits? rest).map (pairedChar u v :: ·) := by
  simp [ofUnits?, hu, hv]

theorem ofUnits?_unitsOf (c : Char) (rest : List UInt16) :
    ofUnits? (unitsOf c ++ rest) = (ofUnits? rest).map (c :: ·) := by
  have hc := char_toNat_ranges c
  by_cases hsmall : c.toNat < 0x10000
  · have hu : (UInt16.ofNat c.toNat).toNat = c.toNat := by
      rw [UInt16.toNat_ofNat']
      omega
    rw [unitsOf, if_pos hsmall, List.singleton_append, ofUnits?_single (by omega), hu,
      Char.ofNat_toNat]
  · have hhigh : (UInt16.ofNat (0xD800 + (c.toNat - 0x10000) / 0x400)).toNat =
        0xD800 + (c.toNat - 0x10000) / 0x400 := by
      rw [UInt16.toNat_ofNat']
      omega
    have hlow : (UInt16.ofNat (0xDC00 + (c.toNat - 0x10000) % 0x400)).toNat =
        0xDC00 + (c.toNat - 0x10000) % 0x400 := by
      rw [UInt16.toNat_ofNat']
      omega
    rw [unitsOf, if_neg hsmall, List.cons_append, List.singleton_append, ofUnits?_pair]
    · rw [pairedChar, hhigh, hlow]
      have hback : 0x10000 + (0xD800 + (c.toNat - 0x10000) / 0x400 - 0xD800) * 0x400 +
          (0xDC00 + (c.toNat - 0x10000) % 0x400 - 0xDC00) = c.toNat := by omega
      rw [hback, Char.ofNat_toNat]
    · simp only [isHighSurrogate, hhigh, Bool.and_eq_true, decide_eq_true_eq]
      omega
    · simp only [isLowSurrogate, hlow, Bool.and_eq_true, decide_eq_true_eq]
      omega

theorem ofUnits?_units (cs : List Char) : ofUnits? (units cs) = some cs := by
  induction cs with
  | nil => rfl
  | cons c cs ih =>
    rw [units, List.flatMap_cons, ofUnits?_unitsOf]
    rw [units] at ih
    rw [ih, Option.map_some]

namespace ModifiedUtf8

theorem encodeUnit_ne_zero (u : UInt16) : ∀ b ∈ encodeUnit u, b ≠ 0 := by
  have hu := u.toNat_lt
  intro b hb h0
  have hzero : b.toNat = 0 := by rw [h0]; rfl
  simp only [encodeUnit] at hb
  split at hb
  · rw [List.mem_singleton.1 hb, UInt8.toNat_ofNat'] at hzero
    omega
  · split at hb
    · simp only [List.mem_cons, List.not_mem_nil, or_false] at hb
      rcases hb with rfl | rfl <;> rw [UInt8.toNat_ofNat'] at hzero <;> omega
    · simp only [List.mem_cons, List.not_mem_nil, or_false] at hb
      rcases hb with rfl | rfl | rfl <;> rw [UInt8.toNat_ofNat'] at hzero <;> omega

theorem decodeUnits_encodeUnit (u : UInt16) (pos : Nat) (rest : List UInt8) :
    decodeUnits pos (encodeUnit u ++ rest) =
      (decodeUnits (pos + (encodeUnit u).length) rest).map (u :: ·) :=
  (unitBytes_encodeUnit u).decodeUnits_append pos rest

theorem decodeUnits_flatMap (us : List UInt16) (pos : Nat) :
    decodeUnits pos (us.flatMap encodeUnit) = .ok us := by
  induction us generalizing pos with
  | nil => rfl
  | cons u us ih =>
    rw [List.flatMap_cons, decodeUnits_encodeUnit, ih]
    rfl

theorem encode_ne_zero (text : String) : ∀ b ∈ encode text, b ≠ 0 := by
  intro b hb
  obtain ⟨u, -, hbu⟩ := List.mem_flatMap.1 hb
  exact encodeUnit_ne_zero u b hbu

section
variable {raw : List UInt8} (hraw : ∀ b ∈ raw, b.toNat < 0x80)
include hraw

theorem decodeUnits_of_ascii (pos : Nat) :
    decodeUnits pos raw = .ok (raw.map fun b => UInt16.ofNat b.toNat) := by
  induction raw generalizing pos with
  | nil => rfl
  | cons b raw ih =>
    obtain ⟨hb, hraw⟩ := List.forall_mem_cons.1 hraw
    have hstep := (UnitBytes.one hb).decodeUnits_append pos raw
    rw [List.singleton_append] at hstep
    rw [hstep, ih hraw]
    rfl

theorem ofUnits?_of_ascii : ofUnits? (raw.map fun b => UInt16.ofNat b.toNat) =
    some (raw.map fun b => Char.ofNat b.toNat) := by
  induction raw with
  | nil => rfl
  | cons b raw ih =>
    obtain ⟨hb, hraw⟩ := List.forall_mem_cons.1 hraw
    have hunit : (UInt16.ofNat b.toNat).toNat = b.toNat := by
      rw [UInt16.toNat_ofNat']
      omega
    rw [List.map_cons, ofUnits?_single (by omega), ih hraw, hunit]
    rfl

end

theorem decodeByUnits_of_isAscii {raw : List UInt8} (h : isAscii raw = true) :
    decodeByUnits raw = .ok (asciiText raw) := by
  have hraw : ∀ b ∈ raw, b.toNat < 0x80 := by simpa [isAscii] using h
  rw [decodeByUnits, decodeUnits_of_ascii hraw]
  simp only [ofUnits?_of_ascii hraw, asciiText]

theorem decode_of_ne_zero {raw : List UInt8} (h : ∀ b ∈ raw, b ≠ 0) :
    decode raw = decodeByUnits raw := by
  have hzero : raw.findIdx? (· = 0) = none := by
    rw [List.findIdx?_eq_none_iff]
    intro b hb
    exact decide_eq_false (h b hb)
  rw [decode, hzero]
  dsimp only
  split
  · next hascii => exact (decodeByUnits_of_isAscii hascii).symm
  · rfl

theorem encode_append (text other : String) :
    encode (text ++ other) = encode text ++ encode other := by
  rw [encode, encode, encode, units, units, units, String.toList_append, List.flatMap_append,
    List.flatMap_append]

theorem decode_encode (text : String) : decode (encode text) = .ok text := by
  rw [decode_of_ne_zero (encode_ne_zero text), decodeByUnits]
  simp only [encode, decodeUnits_flatMap, ofUnits?_units, String.ofList_toList]

theorem encode_injective {s t : String} (h : encode s = encode t) : s = t := by
  have hdecode := congrArg decode h
  rw [decode_encode, decode_encode] at hdecode
  exact Except.ok.inj hdecode

end ModifiedUtf8

end ClassSieve.Text
