import ClassSieve.Proofs.ClassFile.PoolIndices
import ClassSieve.Proofs.Text.Decoding

/-!
# Texts of a class file

Which bytes of a class file are a text, where they fail to be one, and how reading a text and
writing it go together: what is written can be read back, and what is read is written back as it was
when every unit stands in its canonical form.
-/
namespace ClassSieve.ClassFile.Pool
open Text ModifiedUtf8

theorem decodeText_eq_error {offset : Nat} {raw : Bytes} {fault : Fault} :
    decodeText offset raw = .error fault ↔
      ∃ pos, decode raw = .error pos ∧ fault = .malformed (offset + pos) .invalidText := by
  rw [decodeText]
  cases decode raw <;> simp [Except.mapError, eq_comm]

/-- Bytes are a text when none is zero, they are a row of units and its surrogates stand in pairs.
The text is then the one of these units. Otherwise the fault stands at the first zero byte, where
the bytes leave the grammar of units, or in front. -/
theorem decodeText_accepts (offset : Nat) (raw : Bytes) :
    ((∃ text, decodeText offset raw = .ok text) ↔
      0 ∉ raw ∧ ∃ forms, raw = spell forms ∧ Paired (forms.map UnitForm.unit)) ∧
    (∀ text, decodeText offset raw = .ok text ↔
      0 ∉ raw ∧ ∃ forms, raw = spell forms ∧ units text.toList = forms.map UnitForm.unit) ∧
    ∀ fault, decodeText offset raw = .error fault ↔
      ∃ pos, FaultsAt raw pos ∧ fault = .malformed (offset + pos) .invalidText := by
  have hok (text : String) : decodeText offset raw = .ok text ↔ Spells raw text :=
    decodeText_eq_ok.trans decode_eq_ok_iff
  refine ⟨?_, hok, fun fault => ?_⟩
  · simp only [hok, Spells, exists_and_left]
    refine and_congr_right fun _ => ⟨?_, ?_⟩
    · rintro ⟨text, forms, hraw, hunits⟩
      exact ⟨forms, hraw, paired_iff.2 ⟨_, hunits⟩⟩
    · rintro ⟨forms, hraw, hpaired⟩
      obtain ⟨cs, hcs⟩ := hpaired.exists_units
      exact ⟨String.ofList cs, forms, hraw, by rw [String.toList_ofList, hcs]⟩
  · simp only [decodeText_eq_error, decode_eq_error_iff]

/-- Every text is read back from its bytes, whose parts are those of the parts of the text. Bytes
that are read as a text are the ones it is written as when their units are in canonical form. -/
theorem decodeText_encode :
    (∀ text, 0 ∉ encode text ∧ ∀ offset, decodeText offset (encode text) = .ok text) ∧
    (∀ text other, encode text = encode other → text = other) ∧
    (∀ text other, encode (text ++ other) = encode text ++ encode other) ∧
    ∀ offset raw text, decodeText offset raw = .ok text →
      (∃ forms, raw = spell forms) ∧
      ∀ forms, raw = spell forms →
        (encode text = raw ↔ ∀ form ∈ forms, form.IsCanonical) := by
  refine ⟨fun text => ⟨?_, fun offset => decodeText_eq_ok.2 (decode_encode text)⟩,
    fun text other h => encode_injective h, encode_append, fun offset raw text h => ?_⟩
  · intro hzero
    exact encode_ne_zero text 0 hzero rfl
  · obtain ⟨-, forms, hraw, hunits⟩ := decode_eq_ok_iff.1 (decodeText_eq_ok.1 h)
    refine ⟨⟨forms, hraw⟩, fun others hothers => ?_⟩
    have hsame : forms.map UnitForm.unit = others.map UnitForm.unit := by
      have hrow := decodeUnits_spell forms 0
      rw [← hraw, hothers, decodeUnits_spell] at hrow
      exact (Except.ok.inj hrow).symm
    rw [encode, hunits, hsame, hothers, flatMap_encodeUnit_iff]

theorem decodeText_encode_overlong :
    decodeText 10 [0xC1, 0x81] = .ok "A" ∧ encode "A" ≠ [0xC1, 0x81] := by
  have htext : decodeText 10 [0xC1, 0x81] = .ok "A" := by decide
  have hcanonical := (decodeText_encode.2.2.2 10 [0xC1, 0x81] "A" htext).2 [.two 1 1] (by decide)
  exact ⟨htext, fun h => absurd (hcanonical.1 h) (by decide)⟩

end ClassSieve.ClassFile.Pool
