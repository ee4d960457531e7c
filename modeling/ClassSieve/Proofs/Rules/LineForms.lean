import ClassSieve.Proofs.Text.Trimming
import ClassSieve.Rules.Lines

/-!
# Forms of a line

What a line of rules may look like, as a relation between its characters and what it says. The
reader accepts the lines that have a form, and those with a sign and no pattern behind it.
-/
namespace ClassSieve
open Text

namespace Verdict

def sign : Verdict → Char
  | included => '+'
  | excluded => '-'

def word : Verdict → String
  | included => "include"
  | excluded => "exclude"

theorem trimmed_sign (verdict : Verdict) : Trimmed [verdict.sign] := by
  cases verdict <;> decide

theorem trimmed_word (verdict : Verdict) : Trimmed verdict.word.toList := by
  cases verdict <;> decide

end Verdict

namespace Precedence

theorem trimmed_name (value : Precedence) : Trimmed value.name.toList := by
  cases value <;> decide

theorem ofName?_eq_some {text : String} {value : Precedence} :
    ofName? text = some value ↔ value.name = text := by
  constructor
  · intro h
    have hfound := List.find?_some h
    exact of_decide_eq_true hfound
  · rintro rfl
    cases value <;> decide

end Precedence

inductive IsComment : List Char → Prop
  | none : IsComment []
  | text (words : List Char) : IsComment ('#' :: words)

structure IsPattern (cs : List Char) : Prop where
  nonempty : cs ≠ []
  trimmed : Trimmed cs
  uncommented : '#' ∉ cs

namespace Directive

/-- The spellings of a directive, with no blanks around them and no comment. -/
inductive Spells : List Char → Directive → Prop
  | signed (verdict : Verdict) {gap pattern : List Char} (hgap : AllBlank gap)
    (hpattern : IsPattern pattern) :
    Spells ([verdict.sign] ++ (gap ++ pattern)) (.rule ⟨String.ofList pattern, verdict⟩)
  | worded (verdict : Verdict) {gap pattern : List Char} (hgap : AllBlank gap) (hne : gap ≠ [])
    (hpattern : IsPattern pattern) :
    Spells (verdict.word.toList ++ (gap ++ pattern)) (.rule ⟨String.ofList pattern, verdict⟩)
  | precedence (value : Precedence) {gap : List Char} (hgap : AllBlank gap) (hne : gap ≠ []) :
    Spells ("precedence".toList ++ (gap ++ value.name.toList)) (.precedence value)

/-- What a line says: a directive, or nothing. -/
inductive Says : List Char → Option Directive → Prop
  | nothing {front comment : List Char} (hfront : AllBlank front) (hcomment : IsComment comment) :
    Says (front ++ comment) none
  | directive {front core back comment : List Char} {directive : Directive}
    (hfront : AllBlank front) (hcore : Spells core directive) (hback : AllBlank back)
    (hcomment : IsComment comment) : Says (front ++ core ++ back ++ comment) (some directive)

inductive LacksPattern : List Char → Prop
  | sign (verdict : Verdict) {front back comment : List Char} (hfront : AllBlank front)
    (hback : AllBlank back) (hcomment : IsComment comment) :
    LacksPattern (front ++ [verdict.sign] ++ back ++ comment)

variable {line core keyword gap pattern value : List Char} {verdict : Verdict}
  {directive : Directive}

/-! ## The content of a line -/

theorem takeWhile_eq_iff {kept : List Char} : line.takeWhile (· ≠ '#') = kept ↔
    '#' ∉ kept ∧ ∃ comment, IsComment comment ∧ line = kept ++ comment := by
  constructor
  · rintro rfl
    refine ⟨fun hmem => ?_, line.dropWhile (· ≠ '#'), ?_, List.takeWhile_append_dropWhile.symm⟩
    · exact of_decide_eq_true (List.all_eq_true.1 List.all_takeWhile '#' hmem) rfl
    · have hhead := List.head?_dropWhile_not (· ≠ '#') line
      cases hdrop : line.dropWhile (· ≠ '#') with
      | nil => exact .none
      | cons c words =>
        rw [hdrop] at hhead
        obtain rfl : c = '#' := by simpa using hhead
        exact .text words
  · rintro ⟨hmem, comment, hcomment, rfl⟩
    have hkept : ∀ c ∈ kept, decide (c ≠ '#') = true := by
      intro c hc
      exact decide_eq_true fun heq => hmem (heq ▸ hc)
    rw [List.takeWhile_append_of_pos hkept]
    cases hcomment <;> simp

theorem content_eq_iff : content line = core ↔ Trimmed core ∧ '#' ∉ core ∧
    ∃ front back comment, AllBlank front ∧ AllBlank back ∧ IsComment comment ∧
      line = front ++ core ++ back ++ comment := by
  rw [content, trimChars_eq_iff]
  constructor
  · rintro ⟨hcore, front, back, hfront, hback, hkept⟩
    obtain ⟨hmem, comment, hcomment, hline⟩ := takeWhile_eq_iff.1 hkept
    have hmem : '#' ∉ core := fun hin =>
      hmem (List.mem_append_left back (List.mem_append_right front hin))
    exact ⟨hcore, hmem, front, back, comment, hfront, hback, hcomment, hline⟩
  · rintro ⟨hcore, hmem, front, back, comment, hfront, hback, hcomment, hline⟩
    have hblank : isBlank '#' = false := by decide
    have hkept : '#' ∉ front ++ core ++ back := by
      simp [hfront.not_mem hblank, hback.not_mem hblank, hmem]
    exact ⟨hcore, front, back, hfront, hback,
      takeWhile_eq_iff.2 ⟨hkept, comment, hcomment, hline⟩⟩

theorem trimmed_content (line : List Char) : Trimmed (content line) := (content_eq_iff.1 rfl).1

theorem not_mem_content (line : List Char) : '#' ∉ content line := (content_eq_iff.1 rfl).2.1

theorem content_append_blank {c : Char} (hc : isBlank c = true) :
    content (line ++ [c]) = content line := by
  obtain ⟨hcore, hmem, front, back, comment, hfront, hback, hcomment, hline⟩ :=
    content_eq_iff.1 (rfl : content line = content line)
  refine content_eq_iff.2 ⟨hcore, hmem, ?_⟩
  cases hcomment with
  | none =>
    have hlonger : AllBlank (back ++ [c]) :=
      List.forall_mem_append.2 ⟨hback, List.forall_mem_singleton.2 hc⟩
    refine ⟨front, back ++ [c], [], hfront, hlonger, .none, ?_⟩
    rw [List.append_nil] at hline ⊢
    rw [← List.append_assoc, ← hline]
  | text words =>
    refine ⟨front, back, _, hfront, hback, .text (words ++ [c]), ?_⟩
    rw [← List.cons_append, ← List.append_assoc, ← hline]

theorem Spells.trimmed (h : Spells core directive) : Trimmed core := by
  cases h with
  | signed verdict hgap hpattern =>
    exact verdict.trimmed_sign.join (by simp) hpattern.trimmed hpattern.nonempty
  | worded verdict hgap hne hpattern =>
    exact verdict.trimmed_word.join (by cases verdict <;> decide) hpattern.trimmed hpattern.nonempty
  | precedence value hgap hne =>
    have hword : Trimmed "precedence".toList := by decide
    exact hword.join (by decide) value.trimmed_name (by cases value <;> decide)

theorem Spells.uncommented (h : Spells core directive) : '#' ∉ core := by
  have hblank : isBlank '#' = false := by decide
  cases h with
  | signed verdict hgap hpattern =>
    cases verdict <;> simp [Verdict.sign, hgap.not_mem hblank, hpattern.uncommented]
  | worded verdict hgap hne hpattern =>
    cases verdict <;> simp [Verdict.word, hgap.not_mem hblank, hpattern.uncommented]
  | precedence value hgap hne =>
    cases value <;> simp [Precedence.name, hgap.not_mem hblank]

theorem says_none_iff : Says line none ↔ content line = [] := by
  constructor
  · rintro (@⟨front, comment, hfront, hcomment⟩)
    exact content_eq_iff.2 ⟨by decide, List.not_mem_nil, front, [], comment, hfront, by decide,
      hcomment, by simp⟩
  · intro h
    obtain ⟨-, -, front, back, comment, hfront, hback, hcomment, rfl⟩ := content_eq_iff.1 h
    rw [List.append_nil]
    exact .nothing (List.forall_mem_append.2 ⟨hfront, hback⟩) hcomment

theorem says_some_iff : Says line (some directive) ↔ Spells (content line) directive := by
  constructor
  · rintro (_ | @⟨front, core, back, comment, _, hfront, hcore, hback, hcomment⟩)
    rwa [content_eq_iff.2 ⟨hcore.trimmed, hcore.uncommented, front, back, comment, hfront, hback,
      hcomment, rfl⟩]
  · intro h
    obtain ⟨-, -, front, back, comment, hfront, hback, hcomment, hline⟩ :=
      content_eq_iff.1 (rfl : content line = content line)
    rw [hline]
    exact .directive hfront h hback hcomment

theorem lacksPattern_iff :
    LacksPattern line ↔ ∃ verdict : Verdict, content line = [verdict.sign] := by
  constructor
  · rintro ⟨verdict, hfront, hback, hcomment⟩
    have hmem : '#' ∉ [verdict.sign] := by cases verdict <;> decide
    exact ⟨verdict, content_eq_iff.2
      ⟨verdict.trimmed_sign, hmem, _, _, _, hfront, hback, hcomment, rfl⟩⟩
  · rintro ⟨verdict, h⟩
    obtain ⟨-, -, front, back, comment, hfront, hback, hcomment, rfl⟩ := content_eq_iff.1 h
    exact .sign verdict hfront hback hcomment

/-! ## Reading the content -/

theorem trimChars_gap (hgap : AllBlank gap) (hvalue : Trimmed value) :
    trimChars (gap ++ value) = value :=
  trimChars_eq_iff.2 ⟨hvalue, gap, [], hgap, by decide, by simp⟩

theorem ruleOf_gap (verdict : Verdict) (hgap : AllBlank gap) (hpattern : Trimmed pattern) :
    ruleOf verdict (gap ++ pattern) = .rule ⟨String.ofList pattern, verdict⟩ := by
  rw [ruleOf, trimChars_gap hgap hpattern]

theorem ofContent?_sign (verdict : Verdict) (value : List Char) :
    ofContent? ([verdict.sign] ++ value) = .ok (some (ruleOf verdict value)) := by
  cases verdict <;> rfl

theorem ofKeyword_word (verdict : Verdict) (value : List Char) :
    ofKeyword verdict.word value = .ok (ruleOf verdict value) := by
  cases verdict <;> rfl

theorem ofKeyword_precedence (choice : Precedence) (hgap : AllBlank gap) :
    ofKeyword "precedence" (gap ++ choice.name.toList) = .ok (.precedence choice) := by
  have hfound : Precedence.ofName? choice.name = some choice := Precedence.ofName?_eq_some.2 rfl
  simp only [ofKeyword, trimChars_gap hgap choice.trimmed_name, String.ofList_toList, hfound]

theorem ofContent?_of_unsigned (hne : core ≠ []) (hplus : core.head? ≠ some '+')
    (hminus : core.head? ≠ some '-') :
    ofContent? core =
      match cutFirst isBlank core with
      | some (keyword, value) => (ofKeyword (String.ofList keyword) value).map some
      | none => .error (.unreadable (String.ofList core)) := by
  unfold ofContent?
  split
  · exact absurd rfl hne
  · exact absurd rfl hplus
  · exact absurd rfl hminus
  · rfl

theorem ofContent?_of_keyword {keyword : String}
    (hkeyword : keyword ∈ ["include", "exclude", "precedence"]) {c : Char}
    (hc : isBlank c = true) (value : List Char) :
    ofContent? (keyword.toList ++ c :: value) = (ofKeyword keyword value).map some := by
  have hwords : ∀ word ∈ ["include", "exclude", "precedence"],
      cutFirst isBlank word.toList = none ∧ word.toList.head?.any (· ∉ ['+', '-']) := by decide
  obtain ⟨hunbroken, hhead⟩ := hwords keyword hkeyword
  obtain ⟨first, rest, hword⟩ : ∃ first rest, keyword.toList = first :: rest := by
    cases hword : keyword.toList with
    | nil => simp [hword] at hhead
    | cons first rest => exact ⟨first, rest, rfl⟩
  have hsign : first ≠ '+' ∧ first ≠ '-' := by simpa [hword] using hhead
  rw [ofContent?_of_unsigned (by simp [hword]) (by simpa [hword] using hsign.1)
      (by simpa [hword] using hsign.2), cutFirst_append (cutFirst_eq_none_iff.1 hunbroken) hc]
  dsimp only
  rw [String.ofList_toList]

theorem Spells.ofContent?_eq (h : Spells core directive) :
    ofContent? core = .ok (some directive) := by
  cases h with
  | signed verdict hgap hpattern =>
    rw [ofContent?_sign, ruleOf_gap verdict hgap hpattern.trimmed]
  | @worded verdict gap pattern hgap hne hpattern =>
    obtain ⟨c, gap, rfl⟩ := List.exists_cons_of_ne_nil hne
    obtain ⟨hc, hgap⟩ := List.forall_mem_cons.1 hgap
    have hword : verdict.word ∈ ["include", "exclude", "precedence"] := by
      cases verdict <;> decide
    rw [List.cons_append, ofContent?_of_keyword hword hc, ofKeyword_word,
      ruleOf_gap verdict hgap hpattern.trimmed]
    rfl
  | @precedence choice gap hgap hne =>
    obtain ⟨c, gap, rfl⟩ := List.exists_cons_of_ne_nil hne
    obtain ⟨hc, hgap⟩ := List.forall_mem_cons.1 hgap
    rw [List.cons_append, ofContent?_of_keyword (by decide) hc, ofKeyword_precedence choice hgap]
    rfl

theorem exists_pattern (htrimmed : Trimmed (keyword ++ value)) (hmem : '#' ∉ keyword ++ value)
    (hvisible : ¬ AllBlank value) :
    ∃ gap pattern, AllBlank gap ∧ IsPattern pattern ∧ value = gap ++ pattern := by
  obtain ⟨gap, hgap, hvalue⟩ := htrimmed.exists_gap
  refine ⟨gap, trimChars value, hgap, ⟨fun hnil => hvisible ?_, trimmed_trimChars value, ?_⟩,
    hvalue⟩
  · rw [hvalue, hnil, List.append_nil]
    exact hgap
  · rw [hvalue] at hmem
    exact fun hin => hmem (List.mem_append_right keyword (List.mem_append_right gap hin))

theorem spells_of_sign (verdict : Verdict) (htrimmed : Trimmed ([verdict.sign] ++ value))
    (hmem : '#' ∉ [verdict.sign] ++ value) :
    value = [] ∨ Spells ([verdict.sign] ++ value) (ruleOf verdict value) := by
  by_cases hblank : AllBlank value
  · exact .inl (htrimmed.eq_nil_of_append hblank)
  · obtain ⟨gap, pattern, hgap, hpattern, rfl⟩ := exists_pattern htrimmed hmem hblank
    rw [ruleOf_gap _ hgap hpattern.trimmed]
    exact .inr (.signed verdict hgap hpattern)

theorem spells_of_ofKeyword {keyword : String} {c : Char} (hc : isBlank c = true)
    (hgap : AllBlank gap) (hpattern : IsPattern pattern)
    (h : ofKeyword keyword (gap ++ pattern) = .ok directive) :
    Spells (keyword.toList ++ (c :: gap ++ pattern)) directive := by
  have hblank : AllBlank (c :: gap) := List.forall_mem_cons.2 ⟨hc, hgap⟩
  unfold ofKeyword at h
  split at h
  · obtain rfl := Except.ok.inj h
    rw [ruleOf_gap _ hgap hpattern.trimmed]
    exact .worded .included hblank (by simp) hpattern
  · obtain rfl := Except.ok.inj h
    rw [ruleOf_gap _ hgap hpattern.trimmed]
    exact .worded .excluded hblank (by simp) hpattern
  · rw [trimChars_gap hgap hpattern.trimmed] at h
    dsimp only at h
    split at h
    · rename_i value hfound
      obtain rfl := Except.ok.inj h
      have hname := Precedence.ofName?_eq_some.1 hfound
      obtain rfl : value.name.toList = pattern := by rw [hname, String.toList_ofList]
      exact .precedence value hblank (by simp)
    · cases h
  · cases h

theorem spells_of_ofContent? {said : Option Directive} (htrimmed : Trimmed core)
    (hmem : '#' ∉ core) (h : ofContent? core = .ok said) :
    (core = [] ∧ said = none) ∨ (∃ directive, said = some directive ∧ Spells core directive) ∨
      ∃ verdict : Verdict, core = [verdict.sign] := by
  unfold ofContent? at h
  split at h
  · exact .inl ⟨rfl, (Except.ok.inj h).symm⟩
  · rename_i value
    obtain rfl | hspells := spells_of_sign .included htrimmed hmem
    · exact .inr (.inr ⟨.included, rfl⟩)
    · exact .inr (.inl ⟨_, (Except.ok.inj h).symm, hspells⟩)
  · rename_i value
    obtain rfl | hspells := spells_of_sign .excluded htrimmed hmem
    · exact .inr (.inr ⟨.excluded, rfl⟩)
    · exact .inr (.inl ⟨_, (Except.ok.inj h).symm, hspells⟩)
  · split at h
    · rename_i keyword value hcut
      obtain ⟨c, hc, -, rfl⟩ := cutFirst_eq_some hcut
      have hvisible : ¬ AllBlank value := fun hblank => List.cons_ne_nil c value
        (htrimmed.eq_nil_of_append (List.forall_mem_cons.2 ⟨hc, hblank⟩))
      rw [List.append_cons] at htrimmed hmem
      obtain ⟨gap, pattern, hgap, hpattern, rfl⟩ := exists_pattern htrimmed hmem hvisible
      cases hdirective : ofKeyword (String.ofList keyword) (gap ++ pattern) with
      | error fault =>
        rw [hdirective] at h
        cases h
      | ok directive =>
        rw [hdirective] at h
        have hspells := spells_of_ofKeyword hc hgap hpattern hdirective
        rw [String.toList_ofList] at hspells
        exact .inr (.inl ⟨directive, (Except.ok.inj h).symm, hspells⟩)
    · cases h

/-! ## Readable lines -/

def IsReadable (line : List Char) : Prop := (∃ said, Says line said) ∨ LacksPattern line

theorem Says.ofContent?_eq {said : Option Directive} (h : Says line said) :
    ofContent? (content line) = .ok said := by
  cases said with
  | none =>
    rw [says_none_iff.1 h]
    rfl
  | some directive => exact (says_some_iff.1 h).ofContent?_eq

theorem isReadable_iff : IsReadable line ↔ ∃ said, ofContent? (content line) = .ok said := by
  constructor
  · rintro (⟨said, hsaid⟩ | hlacks)
    · exact ⟨said, hsaid.ofContent?_eq⟩
    · obtain ⟨verdict, hcontent⟩ := lacksPattern_iff.1 hlacks
      rw [hcontent]
      exact ⟨_, ofContent?_sign verdict []⟩
  · rintro ⟨said, hsaid⟩
    obtain ⟨hnil, -⟩ | ⟨directive, -, hspells⟩ | hsign :=
      spells_of_ofContent? (trimmed_content line) (not_mem_content line) hsaid
    · exact .inl ⟨none, says_none_iff.2 hnil⟩
    · exact .inl ⟨some directive, says_some_iff.2 hspells⟩
    · exact .inr (lacksPattern_iff.2 hsign)

end Directive

end ClassSieve
