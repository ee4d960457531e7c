import ClassSieve.Proofs.Rules.LineForms
import Mathlib.Data.List.Forall2
import Mathlib.Data.List.ReduceOption

/-!
# Reading rules line by line

A text whose lines all have a form is read as the sheet of its directives: their rules in order, and
the last precedence among them. Any other text is refused at its first unreadable line.
-/
namespace ClassSieve
open Text

/-- The lines a text is broken into. A line feed ends a line, with or without a carriage return
before it. What stands behind the last one is a line too, and an empty one says nothing. -/
inductive BreaksInto : List Char → List (List Char) → Prop
  | last {line : List Char} (hline : '\n' ∉ line) : BreaksInto line [line]
  | feed {line text : List Char} {lines : List (List Char)} (hline : '\n' ∉ line)
    (hrest : BreaksInto text lines) : BreaksInto (line ++ '\n' :: text) (line :: lines)
  | returnFeed {line text : List Char} {lines : List (List Char)} (hline : '\n' ∉ line)
    (hrest : BreaksInto text lines) : BreaksInto (line ++ ['\r'] ++ '\n' :: text) (line :: lines)

theorem exists_breaksInto (text : List Char) : ∃ lines, BreaksInto text lines := by
  induction text with
  | nil => exact ⟨_, .last List.not_mem_nil⟩
  | cons c text ih =>
    obtain ⟨lines, hlines⟩ := ih
    by_cases hc : c = '\n'
    · subst hc
      exact ⟨[] :: lines, .feed List.not_mem_nil hlines⟩
    · have hcons : ∀ {line : List Char}, '\n' ∉ line → '\n' ∉ c :: line := fun hline =>
        List.not_mem_cons_of_ne_of_not_mem (Ne.symm hc) hline
      cases hlines with
      | last hline => exact ⟨_, .last (hcons hline)⟩
      | feed hline hrest => exact ⟨_, .feed (hcons hline) hrest⟩
      | returnFeed hline hrest => exact ⟨_, .returnFeed (hcons hline) hrest⟩

namespace Directive

def rule? : Directive → Option NameRule
  | .rule nameRule => some nameRule
  | .precedence _ => none

def precedence? : Directive → Option Precedence
  | .rule _ => none
  | .precedence value => some value

variable {number : Nat} {line text : List Char} {before after lines : List (List Char)}
  {said : List (Option Directive)}

theorem splitOn_feed (hline : '\n' ∉ line) (text : List Char) :
    (line ++ '\n' :: text).splitOn '\n' = line :: text.splitOn '\n' := by
  apply List.splitOnP_append_cons_of_forall_mem
  · intro c hc
    exact beq_eq_false_iff_ne.2 fun heq => hline (heq ▸ hc)
  · exact beq_self_eq_true '\n'

theorem splitOn_last (hline : '\n' ∉ line) : line.splitOn '\n' = [line] := by
  apply List.splitOnP_eq_singleton
  intro c hc
  exact beq_eq_false_iff_ne.2 fun heq => hline (heq ▸ hc)

/-- The carriage return that splitting leaves at the end of a line is a blank. -/
theorem ofLines_splitOn (h : BreaksInto text lines) :
    ofLines number (text.splitOn '\n') = ofLines number lines := by
  induction h generalizing number with
  | last hline => rw [splitOn_last hline]
  | feed hline hrest ih => rw [splitOn_feed hline, ofLines, ofLines, ih]
  | returnFeed hline hrest ih =>
    rw [splitOn_feed (by simp [hline]), ofLines, ofLines, ih, content_append_blank (by decide)]

theorem ofLines_of_says (h : List.Forall₂ Says lines said) :
    ofLines number lines = .ok said.reduceOption := by
  induction h generalizing number with
  | nil => rfl
  | @cons line said lines rest hsaid hrest ih =>
    rw [ofLines, hsaid.ofContent?_eq, ih]
    cases said with
    | none => rw [List.reduceOption_cons_of_none]; rfl
    | some directive => rw [List.reduceOption_cons_of_some]; rfl

theorem ofLines_of_unreadable (number : Nat)
    (hbefore : ∀ earlier ∈ before, IsReadable earlier)
    (hline : ¬ IsReadable line) (after : List (List Char)) :
    ∃ fault, ofLines number (before ++ line :: after) = .error ⟨number + before.length, fault⟩ := by
  induction before generalizing number with
  | nil =>
    cases hcontent : ofContent? (content line) with
    | ok said => exact absurd (isReadable_iff.2 ⟨said, hcontent⟩) hline
    | error fault => exact ⟨fault, by rw [List.nil_append, ofLines, hcontent]; rfl⟩
  | cons earlier before ih =>
    obtain ⟨hearlier, hbefore⟩ := List.forall_mem_cons.1 hbefore
    obtain ⟨said, hsaid⟩ := isReadable_iff.1 hearlier
    obtain ⟨fault, hfault⟩ := ih (number + 1) hbefore
    refine ⟨fault, ?_⟩
    rw [List.cons_append, ofLines, hsaid, hfault, List.length_cons, Nat.add_right_comm]
    rfl

end Directive

namespace RuleSheet

theorem foldl_apply (sheet : RuleSheet) (directives : List Directive) :
    directives.foldl apply sheet =
      ⟨(directives.filterMap Directive.precedence?).getLast?.getD sheet.precedence,
        sheet.rules ++ directives.filterMap Directive.rule?, sheet.structural⟩ := by
  induction directives generalizing sheet with
  | nil => simp
  | cons directive rest ih =>
    rw [List.foldl_cons, ih]
    cases directive with
    | rule rule => simp [apply, Directive.rule?, Directive.precedence?]
    | precedence value =>
      simp [apply, Directive.rule?, Directive.precedence?, List.filterMap_cons, List.getLast?_cons]

theorem ofDirectives_eq (directives : List Directive) :
    ofDirectives directives =
      ⟨(directives.filterMap Directive.precedence?).getLast?.getD .excludeVeto,
        directives.filterMap Directive.rule?, []⟩ :=
  foldl_apply empty directives

/-- Every text breaks into lines. Where each of them says something or nothing, the sheet has their
rules in order and the last precedence that they give. Otherwise the first line without a form, a
lone sign aside, is named in the message, counted from 1. -/
theorem ofLines_reads_forms (text : String) :
    (∃ lines, BreaksInto text.toList lines) ∧
    ∀ lines, BreaksInto text.toList lines →
      (∀ said, List.Forall₂ Directive.Says lines said →
        ofLines text =
          .ok ⟨(said.reduceOption.filterMap Directive.precedence?).getLast?.getD .excludeVeto,
            said.reduceOption.filterMap Directive.rule?, []⟩) ∧
      (∀ before line after, lines = before ++ line :: after →
        (∀ earlier ∈ before, Directive.IsReadable earlier) → ¬ Directive.IsReadable line →
        ∃ error, ofLines text = .error error ∧ error.line = before.length + 1 ∧
          error.message =
            "line " ++ toString (before.length + 1) ++ ": " ++ error.fault.message) := by
  refine ⟨exists_breaksInto text.toList, fun lines hlines => ⟨?_, ?_⟩⟩
  · intro said hsaid
    rw [ofLines, Directive.ofLines_splitOn hlines, Directive.ofLines_of_says hsaid,
      ← ofDirectives_eq]
    rfl
  · rintro before line after rfl hbefore hline
    obtain ⟨fault, hfault⟩ := Directive.ofLines_of_unreadable 1 hbefore hline after
    rw [Nat.add_comm] at hfault
    refine ⟨⟨before.length + 1, fault⟩, ?_, rfl, rfl⟩
    rw [ofLines, Directive.ofLines_splitOn hlines, hfault]
    rfl

theorem ofLines_reads_forms_commented :
    ofLines "+com.foo.*\r\nprecedence most-specific# last" =
        .ok ⟨.mostSpecific, [⟨"com.foo.*", .included⟩], []⟩ ∧
      ∃ error, ofLines "#\nallow b" = .error error ∧
        error.message = "line 2: " ++ error.fault.message := by
  constructor
  · have htext : "+com.foo.*\r\nprecedence most-specific# last".toList =
        "+com.foo.*".toList ++ ['\r'] ++ '\n' :: "precedence most-specific# last".toList := by
      decide
    have hlines : BreaksInto "+com.foo.*\r\nprecedence most-specific# last".toList
        ["+com.foo.*".toList, "precedence most-specific# last".toList] := by
      rw [htext]
      exact .returnFeed (by decide) (.last (by decide))
    have hpattern : IsPattern "com.foo.*".toList := ⟨by decide, by decide, by decide⟩
    have hrule : Directive.Says "+com.foo.*".toList (some (.rule ⟨"com.foo.*", .included⟩)) :=
      @Directive.Says.directive [] _ [] [] _ (by decide)
        (@Directive.Spells.signed .included [] _ (by decide) hpattern) (by decide) .none
    have hprecedence : Directive.Says "precedence most-specific# last".toList
        (some (.precedence .mostSpecific)) :=
      @Directive.Says.directive [] _ [] _ _ (by decide)
        (@Directive.Spells.precedence .mostSpecific [' '] (by decide) (by decide)) (by decide)
        (.text " last".toList)
    exact ((ofLines_reads_forms _).2 _ hlines).1 _ (.cons hrule (.cons hprecedence .nil))
  · have hlines : BreaksInto "#\nallow b".toList ["#".toList, "allow b".toList] :=
      @BreaksInto.feed "#".toList _ _ (by decide) (.last (by decide))
    have hcomment : Directive.IsReadable "#".toList :=
      .inl ⟨none, @Directive.Says.nothing [] _ (by decide) (.text [])⟩
    have hunknown : ¬ Directive.IsReadable "allow b".toList := by
      rw [Directive.isReadable_iff]
      rintro ⟨said, hsaid⟩
      cases hsaid
    obtain ⟨error, herror, -, hmessage⟩ :=
      ((ofLines_reads_forms _).2 _ hlines).2 ["#".toList] _ [] rfl
        (List.forall_mem_singleton.2 hcomment) hunknown
    exact ⟨error, herror, hmessage⟩

end RuleSheet

end ClassSieve
