import ClassSieve.Json.Printer
import ClassSieve.Json.Reader
import ClassSieve.Proofs.Text.ModifiedUtf8

/-!
# Printed strings and numbers

A string that is printed is read back, whatever follows it. So is a number of 64 bits, as long as
what follows does not go on with it.
-/
namespace ClassSieve.Json
open Text

/-! ## Blanks -/

theorem skipSpace_append {blanks : List Char} (h : ∀ c ∈ blanks, isSpace c = true)
    (cs : List Char) : skipSpace (blanks ++ cs) = skipSpace cs :=
  List.dropWhile_append_of_pos h

theorem skipSpace_cons {c : Char} (h : isSpace c = false) (cs : List Char) :
    skipSpace (c :: cs) = c :: cs :=
  List.dropWhile_cons_of_neg (by simp [h])

theorem skipSpace_skipSpace (cs : List Char) : skipSpace (skipSpace cs) = skipSpace cs := by
  induction cs with
  | nil => rfl
  | cons c cs ih =>
    cases hspace : isSpace c with
    | true =>
      have hskip : skipSpace (c :: cs) = skipSpace cs := List.dropWhile_cons_of_pos hspace
      rw [hskip, ih]
    | false => rw [skipSpace_cons hspace, skipSpace_cons hspace]

def lineStart (level : Nat) : List Char := '\n' :: List.replicate (2 * level) ' '

theorem isSpace_of_mem_lineStart {level : Nat} : ∀ c ∈ lineStart level, isSpace c = true := by
  intro c hc
  rcases List.mem_cons.1 hc with rfl | hblank
  · rfl
  · rw [List.eq_of_mem_replicate hblank]
    rfl

/-! ## Strings -/

theorem escapedChar?_of_mem {entry : Char × Char} (h : entry ∈ shortEscapes) :
    escapedChar? entry.2 = some entry.1 ∧ entry.2 ≠ 'u' := by
  revert entry
  decide

theorem hexUnit?_digitChar {n : Nat} (h : n < 0x20) :
    hexUnit? '0' '0' (Nat.digitChar (n / 16)) (Nat.digitChar (n % 16)) =
      some (UInt16.ofNat n) := by
  revert n
  decide

theorem stringUnits?_escapeChar (c : Char) (rest : List Char) :
    stringUnits? (escapeChar c ++ rest) =
      (stringUnits? rest).map fun found => (unitsOf c ++ found.1, found.2) := by
  rw [escapeChar]
  cases hshort : shortEscapes.lookup c with
  | some letter =>
    obtain ⟨before, after, hsplit, -⟩ := List.lookup_eq_some_iff.1 hshort
    have hentry : (c, letter) ∈ shortEscapes := by
      rw [hsplit]
      exact List.mem_append_right before List.mem_cons_self
    obtain ⟨hescaped, hletter⟩ := escapedChar?_of_mem hentry
    simp only [List.cons_append, List.nil_append]
    rw [stringUnits?]
    · rw [hescaped]
      cases stringUnits? rest <;> rfl
    · rintro a b c d tail hu -
      exact hletter hu
  | none =>
    simp only
    split
    · next hcontrol =>
      have hunits : unitsOf c = [UInt16.ofNat c.toNat] := by
        rw [unitsOf, if_pos (by omega)]
      simp only [List.cons_append, List.nil_append]
      rw [stringUnits?, hexUnit?_digitChar hcontrol, hunits]
      cases stringUnits? rest <;> rfl
    · next hcontrol =>
      have hquote : c ≠ '"' := by
        rintro rfl
        cases hshort
      have hslash : c ≠ '\\' := by
        rintro rfl
        cases hshort
      rw [List.singleton_append, stringUnits?]
      · rw [if_neg (by simp [hcontrol, hslash])]
        cases stringUnits? rest <;> rfl
      · exact hquote
      · exact fun _ _ _ _ _ hc _ => hslash hc
      · exact fun _ _ hc _ => hslash hc

theorem stringUnits?_escaped (cs rest : List Char) :
    stringUnits? (cs.flatMap escapeChar ++ '"' :: rest) = some (units cs, rest) := by
  induction cs with
  | nil => rfl
  | cons c cs ih =>
    rw [List.flatMap_cons, List.append_assoc, stringUnits?_escapeChar, ih]
    rfl

theorem stringBody?_escaped (text : String) (rest : List Char) :
    stringBody? (text.toList.flatMap escapeChar ++ '"' :: rest) = some (some text, rest) := by
  rw [stringBody?, stringUnits?_escaped]
  change some ((ofUnits? (units text.toList)).map String.ofList, rest) = _
  rw [ofUnits?_units, Option.map_some, String.ofList_toList]

theorem toList_quote (text : String) :
    (quote text).toList = '"' :: (text.toList.flatMap escapeChar ++ ['"']) :=
  String.toList_ofList

/-! ## Numbers -/

/-- A number that stands before this text ends there. -/
def EndsNumber (rest : List Char) : Prop :=
  ∀ c ∈ rest.head?, c.isDigit = false ∧ c ≠ '.' ∧ c ≠ 'e' ∧ c ≠ 'E'

theorem head?_toDigits_append (n : Nat) (rest : List Char) :
    (Nat.toDigits 10 n ++ rest).head? = (Nat.toDigits 10 n).head? := by
  rw [List.head?_append, Option.or_of_isSome]
  rw [List.isSome_head?]
  exact Nat.toDigits_ne_nil

theorem head?_toDigits_ne_zero {n : Nat} (h : n ≠ 0) : (Nat.toDigits 10 n).head? ≠ some '0' := by
  induction n using Nat.strongRecOn with
  | ind n ih =>
    by_cases hsmall : n < 10
    · have hdigit : ∀ digit < 10, digit ≠ 0 → (Nat.toDigits 10 digit).head? ≠ some '0' := by
        decide
      exact hdigit n hsmall h
    · rw [Nat.toDigits_of_base_le (by omega) (by omega), head?_toDigits_append]
      exact ih (n / 10) (by omega) (by omega)

theorem digitsValue_toDigits (n : Nat) : digitsValue (Nat.toDigits 10 n) = n :=
  Nat.ofDigitChars_toDigits (by omega) (by omega)

theorem digits?_toDigits (n : Nat) {rest : List Char} (h : EndsNumber rest) :
    digits? (Nat.toDigits 10 n ++ rest) = some (Nat.toDigits 10 n, rest) := by
  have hdigits : ∀ c ∈ Nat.toDigits 10 n, c.isDigit = true := fun c =>
    Nat.isDigit_of_mem_toDigits (by omega) (by omega)
  have hrest : rest.takeWhile Char.isDigit = [] ∧ rest.dropWhile Char.isDigit = rest := by
    cases rest with
    | nil => exact ⟨rfl, rfl⟩
    | cons c rest =>
      have hc := (h c rfl).1
      exact ⟨List.takeWhile_cons_of_neg (by simp [hc]), List.dropWhile_cons_of_neg (by simp [hc])⟩
  rw [digits?, List.takeWhile_append_of_pos hdigits, List.dropWhile_append_of_pos hdigits, hrest.1,
    hrest.2, List.append_nil]
  rw [if_neg]
  simp [Nat.toDigits_ne_nil]

theorem whole?_toDigits (n : Nat) {rest : List Char} (h : EndsNumber rest) :
    whole? (Nat.toDigits 10 n ++ rest) = some (Nat.toDigits 10 n, rest) := by
  by_cases hzero : n = 0
  · subst hzero
    rfl
  · rw [← digits?_toDigits n h, whole?]
    rintro tail htail
    apply head?_toDigits_ne_zero hzero
    have hhead := congrArg List.head? htail
    rwa [head?_toDigits_append] at hhead

theorem fraction?_of_endsNumber {rest : List Char} (h : EndsNumber rest) :
    fraction? rest = some ([], rest) := by
  rw [fraction?]
  rintro tail rfl
  exact (h '.' rfl).2.1 rfl

theorem exponent?_of_endsNumber {rest : List Char} (h : EndsNumber rest) :
    exponent? rest = some (false, [], rest) := by
  cases rest with
  | nil => rfl
  | cons c rest =>
    obtain ⟨-, -, hlower, hupper⟩ := h c rfl
    simp [exponent?, hlower, hupper]

theorem number?_toDigits {n : Nat} (hn : n ≤ largestNatural) {rest : List Char}
    (h : EndsNumber rest) : number? (Nat.toDigits 10 n ++ rest) = some (natural n, rest) := by
  have hsign : (Nat.toDigits 10 n).head? ≠ some '-' := by
    intro hhead
    have hdigit := Nat.isDigit_of_mem_toDigits (by omega) (by omega) (List.mem_of_mem_head? hhead)
    cases hdigit
  have hparts : numberText? (Nat.toDigits 10 n ++ rest) =
      some (⟨false, Nat.toDigits 10 n, [], false, []⟩, rest) := by
    simp [numberText?, hsign, whole?_toDigits n h, fraction?_of_endsNumber h,
      exponent?_of_endsNumber h]
  rw [number?, hparts]
  simp [digitsValue_toDigits, hn]

end ClassSieve.Json
