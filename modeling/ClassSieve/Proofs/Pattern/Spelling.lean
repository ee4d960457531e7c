import ClassSieve.Proofs.Pattern.Separators
import ClassSieve.Proofs.Text.Trimming

/-!
# How patterns are spelled

A pattern is spelled with at most one `*`, which stands at an end, and with any blanks around it.
What was read is rendered as it was spelled, up to its separators and the blanks, so reading it
again gives the same pattern.
-/
namespace ClassSieve

namespace Text

theorem trimChars_trimChars (cs : List Char) : trimChars (trimChars cs) = trimChars cs := by
  have hblank : AllBlank [] := by simp [AllBlank]
  exact trimChars_eq_iff.2 ⟨trimmed_trimChars cs, [], [], hblank, hblank, by simp⟩

end Text

namespace Pattern
open Text
open ClassName (slashed)

variable {cs literal : List Char} {kind : PatternKind} {text : String} {verdict : Verdict}

def WellPlaced (cs : List Char) : Prop :=
  '*' ∉ cs ∨ cs.count '*' = 1 ∧ (cs.head? = some '*' ∨ cs.getLast? = some '*')

instance (cs : List Char) : Decidable (WellPlaced cs) :=
  inferInstanceAs (Decidable (_ ∨ _))

def wildcarded : PatternKind → List Char → List Char
  | .exact, literal => literal
  | .leading, literal => literal ++ ['*']
  | .trailing, literal => '*' :: literal

theorem toList_render (p : Pattern) : p.render.toList = wildcarded p.kind p.literal.toList := by
  rw [render]
  cases p.kind <;> simp [wildcarded]

theorem wildcarded_map_slashed (kind : PatternKind) (literal : List Char) :
    wildcarded kind (literal.map slashed) = (wildcarded kind literal).map slashed := by
  have hstar : slashed '*' = '*' := by decide
  cases kind <;> simp [wildcarded, hstar]

theorem cutWildcard_of_star (rest : List Char) (hlast : ('*' :: rest).getLast? ≠ some '*') :
    cutWildcard ('*' :: rest) = (.trailing, rest) := by
  rw [cutWildcard, if_neg hlast]

theorem cutWildcard_of_ne (hhead : cs.head? ≠ some '*') (hlast : cs.getLast? ≠ some '*') :
    cutWildcard cs = (.exact, cs) := by
  cases cs with
  | nil => rfl
  | cons c rest =>
    have hc : c ≠ '*' := by simpa using hhead
    simp [cutWildcard, hlast, hc]

theorem wildcarded_cutWildcard (cs : List Char) :
    wildcarded (cutWildcard cs).1 (cutWildcard cs).2 = cs := by
  by_cases hlast : cs.getLast? = some '*'
  · obtain ⟨front, rfl⟩ := List.getLast?_eq_some_iff.1 hlast
    simp [cutWildcard, wildcarded]
  by_cases hhead : cs.head? = some '*'
  · obtain ⟨rest, rfl⟩ := List.head?_eq_some_iff.1 hhead
    simp [cutWildcard_of_star rest hlast, wildcarded]
  · simp [cutWildcard_of_ne hhead hlast, wildcarded]

theorem count_wildcarded (kind : PatternKind) (literal : List Char) :
    (wildcarded kind literal).count '*' =
      literal.count '*' + if kind = .exact then 0 else 1 := by
  cases kind <;> simp [wildcarded]

theorem cutWildcard_ne_exact (h : cs.head? = some '*' ∨ cs.getLast? = some '*') :
    (cutWildcard cs).1 ≠ .exact := by
  by_cases hlast : cs.getLast? = some '*'
  · simp [cutWildcard, hlast]
  · obtain ⟨rest, rfl⟩ := List.head?_eq_some_iff.1 (h.resolve_right hlast)
    simp [cutWildcard_of_star rest hlast]

theorem wellPlaced_wildcarded (h : '*' ∉ literal) (kind : PatternKind) :
    WellPlaced (wildcarded kind literal) := by
  have hcount := count_wildcarded kind literal
  rw [List.count_eq_zero.2 h, Nat.zero_add] at hcount
  cases kind with
  | exact => exact Or.inl h
  | leading => exact Or.inr ⟨hcount, Or.inr (by simp [wildcarded])⟩
  | trailing => exact Or.inr ⟨hcount, Or.inl (by simp [wildcarded])⟩

theorem not_mem_cutWildcard_iff : '*' ∉ (cutWildcard cs).2 ↔ WellPlaced cs := by
  have hspelled := wildcarded_cutWildcard cs
  constructor
  · intro h
    rw [← hspelled]
    exact wellPlaced_wildcarded h _
  · intro h
    have hcount := count_wildcarded (cutWildcard cs).1 (cutWildcard cs).2
    rw [hspelled] at hcount
    rw [← List.count_eq_zero]
    rcases h with hnone | ⟨hone, hend⟩
    · rw [List.count_eq_zero.2 hnone] at hcount
      omega
    · -- One `*` that stands at an end is the one that is cut off.
      rw [if_neg (cutWildcard_ne_exact hend), hone] at hcount
      omega

theorem parse_of_nil (h : trimChars text.toList = []) : parse text verdict = .error .empty := by
  simp [parse, h]

theorem parse_of_misplaced (hne : trimChars text.toList ≠ [])
    (h : ¬ WellPlaced (trimChars text.toList)) :
    parse text verdict = .error (.misplacedWildcard (String.ofList (trimChars text.toList))) := by
  rw [← not_mem_cutWildcard_iff, not_not] at h
  simp [parse, hne, h]

theorem parse_of_wellPlaced (hne : trimChars text.toList ≠ [])
    (h : WellPlaced (trimChars text.toList)) :
    parse text verdict = .ok {
      kind := (cutWildcard (trimChars text.toList)).1
      literal := ClassName.toInternal (String.ofList (cutWildcard (trimChars text.toList)).2)
      verdict } := by
  rw [← not_mem_cutWildcard_iff] at h
  simp [parse, hne, h]

theorem parse_trimmed (text : String) (verdict : Verdict) :
    parse (String.ofList (trimChars text.toList)) verdict = parse text verdict := by
  rw [parse, String.toList_ofList, trimChars_trimChars, ← parse]

theorem parse_eq_ok {p : Pattern} (h : parse text verdict = .ok p) :
    trimChars text.toList ≠ [] ∧ WellPlaced (trimChars text.toList) ∧ p.verdict = verdict ∧
      p.kind = (cutWildcard (trimChars text.toList)).1 ∧
      p.literal.toList = (cutWildcard (trimChars text.toList)).2.map slashed := by
  by_cases hnil : trimChars text.toList = []
  · rw [parse_of_nil hnil] at h
    cases h
  by_cases hplaced : WellPlaced (trimChars text.toList)
  · rw [parse_of_wellPlaced hnil hplaced] at h
    cases h
    exact ⟨hnil, hplaced, rfl, rfl, by simp [ClassName.toInternal]⟩
  · rw [parse_of_misplaced hnil hplaced] at h
    cases h

theorem parse_eq_empty_iff :
    parse text verdict = .error .empty ↔ trimChars text.toList = [] := by
  by_cases hnil : trimChars text.toList = []
  · simp [parse_of_nil hnil, hnil]
  by_cases hplaced : WellPlaced (trimChars text.toList)
  · simp [parse_of_wellPlaced hnil hplaced, hnil]
  · simp [parse_of_misplaced hnil hplaced, hnil]

theorem parse_eq_misplaced_iff {shown : String} :
    parse text verdict = .error (.misplacedWildcard shown) ↔ trimChars text.toList ≠ [] ∧
      ¬ WellPlaced (trimChars text.toList) ∧ shown = String.ofList (trimChars text.toList) := by
  by_cases hnil : trimChars text.toList = []
  · simp [parse_of_nil hnil, hnil]
  by_cases hplaced : WellPlaced (trimChars text.toList)
  · simp [parse_of_wellPlaced hnil hplaced, hplaced]
  · simp [parse_of_misplaced hnil hplaced, hnil, hplaced, eq_comm]

theorem exists_parse_iff : (∃ p, parse text verdict = .ok p) ↔
    trimChars text.toList ≠ [] ∧ WellPlaced (trimChars text.toList) := by
  constructor
  · rintro ⟨p, hp⟩
    obtain ⟨hne, hplaced, -⟩ := parse_eq_ok hp
    exact ⟨hne, hplaced⟩
  · rintro ⟨hne, hplaced⟩
    exact ⟨_, parse_of_wellPlaced hne hplaced⟩

theorem toList_render_of_parse {p : Pattern} (h : parse text verdict = .ok p) :
    p.render.toList = (trimChars text.toList).map slashed := by
  obtain ⟨-, -, -, hkind, hliteral⟩ := parse_eq_ok h
  rw [toList_render, hkind, hliteral, wildcarded_map_slashed, wildcarded_cutWildcard]

theorem parse_render {p : Pattern} (h : parse text verdict = .ok p) :
    parse p.render verdict = .ok p := by
  have hrender : p.render = ClassName.toInternal (String.ofList (trimChars text.toList)) := by
    rw [← String.toList_inj, toList_render_of_parse h]
    simp [ClassName.toInternal]
  rw [hrender, parse_toInternal, parse_trimmed]
  exact h

theorem dot_not_mem_map_slashed (cs : List Char) : '.' ∉ cs.map slashed := by
  intro hdot
  obtain ⟨c, -, hc⟩ := List.mem_map.1 hdot
  by_cases h : c = '.' <;> simp [slashed, h] at hc

theorem cutWildcard_eq_nil_iff (hne : cs ≠ []) : (cutWildcard cs).2 = [] ↔ cs = ['*'] := by
  constructor
  · intro hnil
    have hspelled := wildcarded_cutWildcard cs
    rw [hnil] at hspelled
    cases hkind : (cutWildcard cs).1 <;> rw [hkind] at hspelled
    · exact absurd hspelled.symm hne
    · exact hspelled.symm
    · exact hspelled.symm
  · rintro rfl
    rfl

/-- Which texts are patterns, what is wrong with the others, and what a pattern is made of. A
pattern can be read again from what it is rendered as. -/
theorem parse_grammar (text : String) (verdict : Verdict) :
    let cs := trimChars text.toList
    (parse text verdict = .error .empty ↔ cs = []) ∧
    ((∃ p, parse text verdict = .ok p) ↔ cs ≠ [] ∧ WellPlaced cs) ∧
    (∀ shown, parse text verdict = .error (.misplacedWildcard shown) ↔
      cs ≠ [] ∧ ¬ WellPlaced cs ∧ shown = String.ofList cs) ∧
    ∀ p, parse text verdict = .ok p →
      p.verdict = verdict ∧ '*' ∉ p.literal.toList ∧ '.' ∉ p.literal.toList ∧
      (p.literal = "" ↔ cs = ['*']) ∧ (cs = ['*'] → p.kind = .leading) ∧
      parse p.render p.verdict = .ok p := by
  intro cs
  refine ⟨parse_eq_empty_iff, exists_parse_iff, fun shown => parse_eq_misplaced_iff, ?_⟩
  intro p hp
  obtain ⟨hne, hplaced, hverdict, hkind, hliteral⟩ := parse_eq_ok hp
  have hstar := not_mem_cutWildcard_iff.2 hplaced
  refine ⟨hverdict, ?_, ?_, ?_, ?_, ?_⟩
  · rw [hliteral]
    simpa [slashed_eq_star] using hstar
  · rw [hliteral]
    exact dot_not_mem_map_slashed _
  · rw [← String.toList_eq_nil_iff, hliteral, List.map_eq_nil_iff, cutWildcard_eq_nil_iff hne]
  · intro hlone
    rw [hkind, show trimChars text.toList = ['*'] from hlone]
    rfl
  · rw [hverdict]
    exact parse_render hp

theorem parse_grammar_blanks :
    parse " *  a.b\t" .included = .ok ⟨.trailing, "  a/b", .included⟩ ∧
      parse "*  a/b" .included = .ok ⟨.trailing, "  a/b", .included⟩ := by
  have hparse : parse " *  a.b\t" .included = .ok ⟨.trailing, "  a/b", .included⟩ := by
    decide +kernel
  obtain ⟨-, -, -, -, -, hagain⟩ := (parse_grammar " *  a.b\t" .included).2.2.2 _ hparse
  exact ⟨hparse, hagain⟩

end Pattern

end ClassSieve
