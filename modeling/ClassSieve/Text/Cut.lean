/-!
# Taking texts apart

`cutFirst p` and `cutLast p` split a list at the first and at the last element on which `p` holds
and drop that element. Both find nothing in a list where `p` never holds.

The characters that separate words in a rules file and frame a pattern are those with the Unicode
property `White_Space`. `trim` cuts them off both ends of a text and leaves those inside.

A numeral is a nonempty run of the digits `0` to `9` behind at most one plus sign. Leading zeros
are allowed, and a value above the bound is not a number of that width.
-/
namespace ClassSieve.Text

section
variable {α : Type}

def cutFirst (p : α → Bool) : List α → Option (List α × List α)
  | [] => none
  | a :: rest =>
    if p a then some ([], rest)
    else (cutFirst p rest).map fun parts => (a :: parts.1, parts.2)

def cutLast (p : α → Bool) (l : List α) : Option (List α × List α) :=
  (cutFirst p l.reverse).map fun parts => (parts.2.reverse, parts.1.reverse)

theorem cutFirst_eq_some {p : α → Bool} {l before after : List α}
    (h : cutFirst p l = some (before, after)) :
    ∃ a, p a = true ∧ (∀ b ∈ before, p b = false) ∧ l = before ++ a :: after := by
  induction l generalizing before with
  | nil => simp [cutFirst] at h
  | cons a rest ih =>
    by_cases ha : p a
    · simp only [cutFirst, ha, if_true, Option.some.injEq, Prod.mk.injEq] at h
      obtain ⟨rfl, rfl⟩ := h
      exact ⟨a, ha, by simp, rfl⟩
    · simp only [cutFirst, ha, Bool.false_eq_true, if_false, Option.map_eq_some_iff] at h
      obtain ⟨⟨front, back⟩, hcut, hparts⟩ := h
      simp only [Prod.mk.injEq] at hparts
      obtain ⟨rfl, rfl⟩ := hparts
      obtain ⟨c, hc, hfront, rfl⟩ := ih hcut
      refine ⟨c, hc, ?_, rfl⟩
      simpa [ha] using hfront

theorem cutFirst_append {p : α → Bool} {before : List α} {a : α} {after : List α}
    (hbefore : ∀ b ∈ before, p b = false) (ha : p a = true) :
    cutFirst p (before ++ a :: after) = some (before, after) := by
  induction before with
  | nil => simp [cutFirst, ha]
  | cons b rest ih =>
    have hb : p b = false := hbefore b (by simp)
    simp [cutFirst, hb, ih fun c hc => hbefore c (by simp [hc])]

theorem cutFirst_eq_none_iff {p : α → Bool} {l : List α} :
    cutFirst p l = none ↔ ∀ a ∈ l, p a = false := by
  induction l with
  | nil => simp [cutFirst]
  | cons a rest ih => by_cases ha : p a <;> simp [cutFirst, ha, ih]

section
variable [DecidableEq α] {a : α} {before after : List α}

theorem cutFirst_of_not_mem (h : a ∉ before) :
    cutFirst (· = a) (before ++ a :: after) = some (before, after) := by
  apply cutFirst_append
  · intro b hb
    exact decide_eq_false fun heq => h (heq ▸ hb)
  · exact decide_eq_true rfl

theorem cutLast_of_not_mem (h : a ∉ after) :
    cutLast (· = a) (before ++ a :: after) = some (before, after) := by
  have hcut : cutFirst (· = a) (after.reverse ++ a :: before.reverse) =
      some (after.reverse, before.reverse) :=
    cutFirst_of_not_mem fun hmem => h (List.mem_reverse.1 hmem)
  simp [cutLast, hcut]

end

end

/-! ## Blanks -/

/-- The code points with the property `White_Space`, as inclusive ranges. -/
def blankRanges : List (Nat × Nat) :=
  [(0x9, 0xD), (0x20, 0x20), (0x85, 0x85), (0xA0, 0xA0), (0x1680, 0x1680), (0x2000, 0x200A),
    (0x2028, 0x2029), (0x202F, 0x202F), (0x205F, 0x205F), (0x3000, 0x3000)]

def isBlank (c : Char) : Bool :=
  blankRanges.any fun range => range.1 ≤ c.toNat && c.toNat ≤ range.2

def dropTrailing {α : Type} (p : α → Bool) (l : List α) : List α :=
  (l.reverse.dropWhile p).reverse

def trimChars (cs : List Char) : List Char :=
  dropTrailing isBlank (cs.dropWhile isBlank)

def trim (text : String) : String :=
  String.ofList (trimChars text.toList)

/-! ## Numerals -/

def digitsValue (cs : List Char) : Nat :=
  cs.foldl (fun value c => 10 * value + (c.toNat - 48)) 0

def unsignedDigits : List Char → List Char
  | '+' :: rest => rest
  | cs => cs

def numeral? (bound : Nat) (cs : List Char) : Option Nat :=
  let digits := unsignedDigits cs
  if digits.isEmpty || !digits.all Char.isDigit || bound < digitsValue digits then none
  else some (digitsValue digits)

end ClassSieve.Text
