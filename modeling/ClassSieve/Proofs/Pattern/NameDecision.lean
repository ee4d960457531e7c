import ClassSieve.Pattern.NamePolicy
import ClassSieve.Proofs.Pattern.Separators
import Mathlib.Algebra.Group.Nat.Defs

/-!
# Decisions by name, rule by rule

A policy decides about a name through the look-up in a trie and the weights of what it finds. The
decision is the one that the patterns that match the name give when they are gone through one by
one: any of them that excludes prevails, or only the longest of them count, and of these only the
whole names where there are any.
-/
namespace ClassSieve
open ClassName (letters)

instance Pattern.decidableMatches (pattern : Pattern) (name : String) :
    Decidable (pattern.Matches name) :=
  match pattern with
  | ⟨.exact, literal, _⟩ => inferInstanceAs (Decidable (letters literal = letters name))
  | ⟨.leading, literal, _⟩ => inferInstanceAs (Decidable (letters literal <+: letters name))
  | ⟨.trailing, literal, _⟩ => inferInstanceAs (Decidable (letters literal <:+ letters name))

namespace NamePolicy

def matching (patterns : List Pattern) (name : String) : List Pattern :=
  patterns.filter fun p => p.Matches name

def longest (patterns : List Pattern) : List Pattern :=
  patterns.filter fun p => patterns.all fun q => q.literal.utf8ByteSize ≤ p.literal.utf8ByteSize

/-- The whole names among the patterns, or all of the patterns where there are none. -/
def wholeNames (patterns : List Pattern) : List Pattern :=
  if patterns.any fun p => p.kind = .exact then patterns.filter fun p => p.kind = .exact
  else patterns

def prevailing (patterns : List Pattern) : Decision :=
  if patterns.isEmpty then .noMatch
  else if patterns.any fun p => p.verdict = .excluded then .excluded
  else .included

def decideAmong (precedence : Precedence) (patterns : List Pattern) (name : String) : Decision :=
  match precedence with
  | .excludeVeto => prevailing (matching patterns name)
  | .mostSpecific => prevailing (wholeNames (longest (matching patterns name)))

def totalLength : List Pattern → Nat
  | [] => 0
  | p :: rest => p.literal.utf8ByteSize + totalLength rest

variable {patterns others : List Pattern} {p : Pattern} {name : String}

theorem utf8ByteSize_le_totalLength (hp : p ∈ patterns) :
    p.literal.utf8ByteSize ≤ totalLength patterns := by
  induction patterns with
  | nil => cases hp
  | cons first rest ih =>
    rw [totalLength]
    rcases List.mem_cons.1 hp with rfl | hrest
    · omega
    · have hle := ih hrest
      omega

theorem mem_matching : p ∈ matching patterns name ↔ p ∈ patterns ∧ p.Matches name := by
  simp [matching]

theorem mem_longest : p ∈ longest patterns ↔
    p ∈ patterns ∧ ∀ q ∈ patterns, q.literal.utf8ByteSize ≤ p.literal.utf8ByteSize := by
  simp [longest]

theorem mem_wholeNames : p ∈ wholeNames patterns ↔
    p ∈ patterns ∧ ((∃ q ∈ patterns, q.kind = .exact) → p.kind = .exact) := by
  rw [wholeNames]
  split
  · next hany => simp_all
  · next hnone => simp_all

theorem prevailing_of_mem (hp : p ∈ patterns) : prevailing patterns =
    if patterns.any fun p => p.verdict = .excluded then .excluded else .included := by
  have hne : patterns ≠ [] := List.ne_nil_of_mem hp
  simp [prevailing, hne]

theorem prevailing_congr (h : ∀ p, p ∈ patterns ↔ p ∈ others) :
    prevailing patterns = prevailing others := by
  cases patterns with
  | nil =>
    have hnil : others = [] := by
      apply List.eq_nil_iff_forall_not_mem.2
      intro p hp
      cases (h p).2 hp
    rw [hnil]
  | cons p rest =>
    have hp : p ∈ p :: rest := List.mem_cons_self
    rw [prevailing_of_mem hp, prevailing_of_mem ((h p).1 hp)]
    congr 1
    rw [List.any_eq_true, List.any_eq_true]
    simp only [h]

theorem vetoed_map_ofPattern (patterns : List Pattern) :
    vetoed (patterns.map Match.ofPattern) = prevailing patterns := by
  cases patterns with
  | nil => rfl
  | cons p rest =>
    rw [prevailing_of_mem List.mem_cons_self, vetoed, List.any_map]
    rfl

/-! ## The weightiest match -/

theorem weight_ofPattern (h : p.literal.utf8ByteSize < 2 ^ 31) : (Match.ofPattern p).weight =
    4 * p.literal.utf8ByteSize + 2 * (if p.kind = .exact then 1 else 0) + p.verdict.rank := by
  have hmin : min p.literal.utf8ByteSize Pattern.longestLength = p.literal.utf8ByteSize := by
    rw [Pattern.longestLength]
    omega
  simp only [Match.weight, Match.ofPattern, Pattern.specificity, hmin]
  omega

theorem foldl_heavier (held : Match) (found : List Match) :
    ∃ m ∈ held :: found, found.foldl PatternTrie.heavier (some held) = some m ∧
      ∀ n ∈ held :: found, n.weight ≤ m.weight := by
  induction found generalizing held with
  | nil => exact ⟨held, List.mem_cons_self, rfl, by simp⟩
  | cons first rest ih =>
    simp only [List.foldl_cons, PatternTrie.heavier, List.mem_cons, forall_eq_or_imp] at ih ⊢
    split
    · next hle =>
      obtain ⟨m, hm, hfold, hfirst, hrest⟩ := ih first
      exact ⟨m, Or.inr hm, hfold, hle.trans hfirst, hfirst, hrest⟩
    · next hlt =>
      obtain ⟨m, hm, hfold, hheld, hrest⟩ := ih held
      exact ⟨m, hm.imp_right Or.inr, hfold, hheld, (Nat.le_of_not_le hlt).trans hheld, hrest⟩

theorem best?_cases (trie : PatternTrie) (name : String) :
    (trie.lookup name = [] ∧ trie.best? name = none) ∨
      ∃ m ∈ trie.lookup name, trie.best? name = some m ∧
        ∀ n ∈ trie.lookup name, n.weight ≤ m.weight := by
  rw [PatternTrie.best?]
  cases trie.lookup name with
  | nil => exact Or.inl ⟨rfl, rfl⟩
  | cons first rest => exact Or.inr (foldl_heavier first rest)

theorem prevailing_of_weight_le (hp : p ∈ patterns)
    (hshort : ∀ q ∈ patterns, q.literal.utf8ByteSize < 2 ^ 31)
    (hmost : ∀ q ∈ patterns, (Match.ofPattern q).weight ≤ (Match.ofPattern p).weight) :
    prevailing (wholeNames (longest patterns)) = p.verdict.decision := by
  have hrank (verdict : Verdict) : verdict.rank ≤ 1 := by cases verdict <;> decide
  have hweight : ∀ q ∈ patterns,
      4 * q.literal.utf8ByteSize + 2 * (if q.kind = .exact then 1 else 0) + q.verdict.rank ≤
        4 * p.literal.utf8ByteSize + 2 * (if p.kind = .exact then 1 else 0) + p.verdict.rank := by
    intro q hq
    rw [← weight_ofPattern (hshort q hq), ← weight_ofPattern (hshort p hp)]
    exact hmost q hq
  have hlongest : p ∈ longest patterns := by
    refine mem_longest.2 ⟨hp, fun q hq => ?_⟩
    have hle := hweight q hq
    have hone := hrank p.verdict
    split at hle <;> split at hle <;> omega
  have hsame : ∀ q ∈ longest patterns, q ∈ patterns ∧
      q.literal.utf8ByteSize = p.literal.utf8ByteSize := by
    intro q hq
    obtain ⟨hmem, hle⟩ := mem_longest.1 hq
    exact ⟨hmem, Nat.le_antisymm ((mem_longest.1 hlongest).2 q hmem) (hle p hp)⟩
  have hwhole : p ∈ wholeNames (longest patterns) := by
    refine mem_wholeNames.2 ⟨hlongest, ?_⟩
    rintro ⟨q, hq, hexact⟩
    obtain ⟨hmem, hsize⟩ := hsame q hq
    have hle := hweight q hmem
    have hone := hrank p.verdict
    by_contra hpartial
    rw [if_pos hexact, if_neg hpartial] at hle
    omega
  -- the patterns that count are as long as `p` and whole names just when `p` is one
  have hexcluded : ∀ q ∈ wholeNames (longest patterns), q.verdict.rank ≤ p.verdict.rank := by
    intro q hq
    obtain ⟨hmem, hexact⟩ := mem_wholeNames.1 hq
    obtain ⟨hpatterns, hsize⟩ := hsame q hmem
    have hkinds : q.kind = .exact ↔ p.kind = .exact :=
      ⟨fun h => (mem_wholeNames.1 hwhole).2 ⟨q, hmem, h⟩, fun h => hexact ⟨p, hlongest, h⟩⟩
    have hle := hweight q hpatterns
    simp only [hkinds] at hle
    omega
  rw [prevailing_of_mem hwhole]
  split
  · next hany =>
    obtain ⟨q, hq, hverdict⟩ := List.any_eq_true.1 hany
    have hle := hexcluded q hq
    rw [of_decide_eq_true hverdict] at hle
    cases hp : p.verdict with
    | included =>
      rw [hp] at hle
      exact absurd hle (by decide)
    | excluded => rfl
  · next hnone =>
    have hkept := List.any_eq_false.1 (Bool.eq_false_iff.2 hnone) p hwhole
    cases hp : p.verdict with
    | included => rfl
    | excluded => simp [hp] at hkept

/-! ## Decisions -/

theorem decide_excludeVeto (hparsed : ∀ p ∈ patterns, p.IsParsed) (name : String) :
    (ofPatterns patterns .excludeVeto).decide name = prevailing (matching patterns name) := by
  obtain ⟨found, hfound, hfinds⟩ := PatternTrie.lookup_finds hparsed name
  change vetoed ((PatternTrie.ofPatterns patterns).lookup name) = _
  rw [hfound, vetoed_map_ofPattern]
  apply prevailing_congr
  intro p
  rw [hfinds.mem, mem_matching]

theorem decide_mostSpecific (hparsed : ∀ p ∈ patterns, p.IsParsed)
    (hshort : ∀ p ∈ patterns, p.literal.utf8ByteSize < 2 ^ 31) (name : String) :
    (ofPatterns patterns .mostSpecific).decide name =
      prevailing (wholeNames (longest (matching patterns name))) := by
  obtain ⟨found, hfound, hfinds⟩ := PatternTrie.lookup_finds hparsed name
  have hmem (p : Pattern) : p ∈ found ↔ p ∈ matching patterns name :=
    (hfinds.mem p).trans mem_matching.symm
  simp only [decide, ofPatterns]
  rcases best?_cases (PatternTrie.ofPatterns patterns) name with
    ⟨hnil, hnone⟩ | ⟨m, hm, hsome, hmost⟩
  · rw [hfound, List.map_eq_nil_iff] at hnil
    have hmatching : matching patterns name = [] := by
      apply List.eq_nil_iff_forall_not_mem.2
      intro p hp
      rw [← hmem, hnil] at hp
      cases hp
    rw [hnone, hmatching]
    rfl
  · rw [hfound] at hm hmost
    obtain ⟨p, hp, rfl⟩ := List.mem_map.1 hm
    rw [hsome]
    symm
    apply prevailing_of_weight_le ((hmem p).1 hp)
    · intro q hq
      exact hshort q (mem_matching.1 hq).1
    · intro q hq
      exact hmost _ (List.mem_map_of_mem ((hmem q).2 hq))

theorem decide_eq_noMatch_iff (policy : NamePolicy) (name : String) :
    policy.decide name = .noMatch ↔ policy.trie.lookup name = [] := by
  rw [decide]
  cases policy.precedence with
  | excludeVeto =>
    cases hfound : policy.trie.lookup name with
    | nil => simp [vetoed]
    | cons m rest =>
      simp only [vetoed]
      split <;> simp
  | mostSpecific =>
    rcases best?_cases policy.trie name with ⟨hnil, hnone⟩ | ⟨m, hm, hsome, -⟩
    · simp [hnil, hnone]
    · have hne := List.ne_nil_of_mem hm
      simp only [hsome, hne]
      cases m.verdict <;> simp [Verdict.decision]

/-- A policy decides about a name as its patterns do when they are gone through one by one. Neither
their order, nor how often they are given, nor the separators in them or in the name play a part,
and whether any rule speaks about a name does not depend on the precedence. -/
theorem decide_eq_decideAmong (patterns : List Pattern) (name : String)
    (hparsed : ∀ p ∈ patterns, p.IsParsed)
    (hlength : totalLength patterns < 2 ^ 31) :
    (∀ precedence,
      (ofPatterns patterns precedence).decide name = decideAmong precedence patterns name) ∧
    (∀ precedence others otherName, PatternTrie.SameRules others patterns →
      letters otherName = letters name →
      (ofPatterns others precedence).decide otherName =
        (ofPatterns patterns precedence).decide name) ∧
    (∀ text other verdict pattern, letters other = letters text →
      Pattern.parse text verdict = .ok pattern → Pattern.parse other verdict = .ok pattern) ∧
    ((ofPatterns patterns .excludeVeto).decide name = .noMatch ↔
      (ofPatterns patterns .mostSpecific).decide name = .noMatch) := by
  have hshort : ∀ p ∈ patterns, p.literal.utf8ByteSize < 2 ^ 31 := by
    intro p hp
    exact Nat.lt_of_le_of_lt (utf8ByteSize_le_totalLength hp) hlength
  refine ⟨?_, ?_, fun text other verdict pattern => Pattern.parse_of_letters_eq, ?_⟩
  · intro precedence
    cases precedence with
    | excludeVeto => exact decide_excludeVeto hparsed name
    | mostSpecific => exact decide_mostSpecific hparsed hshort name
  · intro precedence others otherName hrules hname
    have hlookup := PatternTrie.lookup_of_sameRules hparsed hrules hname
    rw [decide, decide, PatternTrie.best?, PatternTrie.best?, ofPatterns, ofPatterns, hlookup]
  · rw [decide_eq_noMatch_iff, decide_eq_noMatch_iff]
    rfl

def packagePatterns : List Pattern := PatternTrie.samplePatterns.drop 2

def dottedPatterns : List Pattern :=
  [⟨.leading, "org.", .included⟩, ⟨.leading, "com.foo/", .excluded⟩,
    ⟨.exact, "com.foo.Bar", .included⟩, ⟨.leading, "com/foo.", .excluded⟩]

theorem sameRules_dottedPatterns : PatternTrie.SameRules dottedPatterns packagePatterns := by
  constructor
  · simp only [dottedPatterns, List.forall_mem_cons]
    refine ⟨?_, ?_, ?_, ?_, by simp⟩
    · exact ⟨⟨.leading, "org/", .included⟩, by decide, rfl, by decide, rfl⟩
    · exact ⟨⟨.leading, "com/foo/", .excluded⟩, by decide, rfl, by decide, rfl⟩
    · exact ⟨⟨.exact, "com/foo/Bar", .included⟩, by decide, rfl, by decide, rfl⟩
    · exact ⟨⟨.leading, "com/foo/", .excluded⟩, by decide, rfl, by decide, rfl⟩
  · simp only [packagePatterns, PatternTrie.samplePatterns, List.drop_succ_cons, List.drop_zero,
      List.forall_mem_cons]
    refine ⟨?_, ?_, ?_, by simp⟩
    · exact ⟨⟨.exact, "com.foo.Bar", .included⟩, by decide, rfl, by decide, rfl⟩
    · exact ⟨⟨.leading, "com.foo/", .excluded⟩, by decide, rfl, by decide, rfl⟩
    · exact ⟨⟨.leading, "org.", .included⟩, by decide, rfl, by decide, rfl⟩

theorem decide_eq_decideAmong_package :
    (∀ p ∈ packagePatterns, p.IsParsed) ∧
    totalLength packagePatterns < 2 ^ 31 ∧
    (ofPatterns packagePatterns .excludeVeto).decide "com.foo/Bar" = .excluded ∧
    (ofPatterns packagePatterns .mostSpecific).decide "com.foo/Bar" = .included ∧
    (ofPatterns dottedPatterns .mostSpecific).decide "com/foo.Bar" = .included := by
  have hparsed : ∀ p ∈ packagePatterns, p.IsParsed := by
    intro p hp
    exact PatternTrie.isParsed_samplePatterns p (List.mem_of_mem_drop hp)
  have hlength : totalLength packagePatterns < 2 ^ 31 := by decide +kernel
  obtain ⟨hdecide, hsame, -, -⟩ :=
    decide_eq_decideAmong packagePatterns "com.foo/Bar" hparsed hlength
  have hveto := hdecide .excludeVeto
  have hspecific := hdecide .mostSpecific
  have hdotted := hsame .mostSpecific dottedPatterns "com/foo.Bar" sameRules_dottedPatterns
    (by decide)
  have hexcluded : decideAmong .excludeVeto packagePatterns "com.foo/Bar" = .excluded := by
    decide +kernel
  have hincluded : decideAmong .mostSpecific packagePatterns "com.foo/Bar" = .included := by
    decide +kernel
  refine ⟨hparsed, hlength, hveto.trans hexcluded, hspecific.trans hincluded, ?_⟩
  rw [hdotted, hspecific, hincluded]

end NamePolicy

end ClassSieve
