import ClassSieve.Proofs.Pattern.Lookup

/-!
# Separators in patterns and names

Names and patterns are written with dots, with slashes or with both. Which of the two stands between
packages makes no difference: texts that differ in it alone are read as one pattern, and patterns
that differ in it alone build one trie.
-/
namespace ClassSieve
open ClassName (letters slashed)

namespace Text

theorem isBlank_slashed (c : Char) : isBlank (slashed c) = isBlank c := by
  by_cases h : c = '.'
  · subst h
    decide
  · simp [slashed, h]

theorem slashed_eq_iff {c d : Char} (hdot : d ≠ '.') (hslash : d ≠ '/') :
    slashed c = d ↔ c = d := by
  by_cases h : c = '.'
  · subst h
    simp [slashed, hdot.symm, hslash.symm]
  · simp [slashed, h]

theorem slashed_eq_star {c : Char} : slashed c = '*' ↔ c = '*' :=
  slashed_eq_iff (by decide) (by decide)

theorem trimChars_map_slashed (cs : List Char) :
    trimChars (cs.map slashed) = (trimChars cs).map slashed := by
  have hblank : isBlank ∘ slashed = isBlank := funext isBlank_slashed
  simp [trimChars, dropTrailing, List.dropWhile_map, ← List.map_reverse, hblank]

theorem length_utf8_map_slashed (cs : List Char) :
    (utf8 (cs.map slashed)).length = (utf8 cs).length := by
  induction cs with
  | nil => rfl
  | cons c cs ih =>
    rw [List.map_cons, utf8_cons, utf8_cons, List.length_append, List.length_append, ih]
    by_cases h : c = '.'
    · subst h
      rfl
    · simp [slashed, h]

end Text

theorem ClassName.utf8ByteSize_toInternal (name : String) :
    (toInternal name).utf8ByteSize = name.utf8ByteSize := by
  have hsize := Text.length_utf8_map_slashed name.toList
  rw [Text.length_utf8, Text.length_utf8, String.ofList_toList] at hsize
  exact hsize

theorem ClassName.toInternal_congr {a b : String} (h : letters a = letters b) :
    toInternal a = toInternal b := congrArg String.ofList h

theorem nameKey_toInternal (name : String) :
    nameKey (ClassName.toInternal name) = nameKey name := by
  rw [nameKey_inj, letters, letters, ClassName.toInternal, String.toList_ofList, List.map_map]
  exact List.map_congr_left fun c _ => ClassName.slashed_slashed c

namespace Pattern
open Text

theorem cutWildcard_map_slashed (cs : List Char) :
    cutWildcard (cs.map slashed) = ((cutWildcard cs).1, (cutWildcard cs).2.map slashed) := by
  have hlast : (cs.map slashed).getLast? = some '*' ↔ cs.getLast? = some '*' := by
    simp [List.getLast?_map, Option.map_eq_some_iff, slashed_eq_star]
  simp only [cutWildcard, hlast]
  split
  · rw [List.dropLast_eq_take, List.length_map, ← List.map_take, ← List.dropLast_eq_take]
  · cases cs with
    | nil => rfl
    | cons c cs =>
      by_cases hstar : c = '*'
      · subst hstar
        rfl
      · have hkept : slashed c ≠ '*' := mt slashed_eq_star.1 hstar
        simp [hstar, hkept]

theorem parse_toInternal {text : String} {verdict : Verdict} {pattern : Pattern} :
    parse (ClassName.toInternal text) verdict = .ok pattern ↔ parse text verdict = .ok pattern := by
  have hmem (cs : List Char) : '*' ∈ cs.map slashed ↔ '*' ∈ cs := by
    simp [slashed_eq_star]
  rw [parse, parse, ClassName.toInternal, String.toList_ofList, trimChars_map_slashed,
    List.isEmpty_map, cutWildcard_map_slashed]
  split
  · rfl
  · simp only [hmem]
    split
    · simp
    · have hinternal := ClassName.toInternal_toInternal
        (String.ofList (cutWildcard (trimChars text.toList)).2)
      rw [ClassName.toInternal, ClassName.toInternal, String.toList_ofList,
        String.toList_ofList] at hinternal
      rw [ClassName.toInternal, String.toList_ofList, hinternal, ClassName.toInternal,
        String.toList_ofList]

theorem parse_of_letters_eq {text other : String} {verdict : Verdict} {pattern : Pattern}
    (h : letters other = letters text) (hparse : parse text verdict = .ok pattern) :
    parse other verdict = .ok pattern := by
  rw [← parse_toInternal, ClassName.toInternal_congr h, parse_toInternal]
  exact hparse

structure Alike (p q : Pattern) : Prop where
  kind : p.kind = q.kind
  literal : letters p.literal = letters q.literal
  verdict : p.verdict = q.verdict

def toInternal (p : Pattern) : Pattern := { p with literal := ClassName.toInternal p.literal }

theorem Alike.toInternal_eq {p q : Pattern} (h : p.Alike q) (hq : q.IsParsed) :
    p.toInternal = q := by
  obtain ⟨kind, literal, verdict⟩ := q
  rw [toInternal, ClassName.toInternal_congr h.literal, hq.toInternal_literal, h.kind, h.verdict]

theorem ofPattern_toInternal (p : Pattern) : Match.ofPattern p.toInternal = Match.ofPattern p := by
  have hspecificity : p.toInternal.specificity = p.specificity := by
    rw [specificity, specificity, toInternal, ClassName.utf8ByteSize_toInternal]
  rw [Match.ofPattern, hspecificity]
  rfl

theorem insert_toInternal (trie : PatternTrie) (p : Pattern) :
    trie.insert p.toInternal = trie.insert p := by
  rw [PatternTrie.insert, PatternTrie.insert, ofPattern_toInternal]
  simp only [toInternal, nameKey_toInternal]

end Pattern

namespace PatternTrie

theorem ofPatterns_map_toInternal (patterns : List Pattern) :
    ofPatterns (patterns.map Pattern.toInternal) = ofPatterns patterns := by
  have hinsert : (fun (trie : PatternTrie) (p : Pattern) => trie.insert p.toInternal) =
      PatternTrie.insert := by
    funext trie p
    exact Pattern.insert_toInternal trie p
  rw [ofPatterns, List.foldl_map, hinsert, ofPatterns]

/-- Whether two lists have the same patterns, up to separators, order and repetition. -/
structure SameRules (others patterns : List Pattern) : Prop where
  forth : ∀ p ∈ others, ∃ q ∈ patterns, p.Alike q
  back : ∀ q ∈ patterns, ∃ p ∈ others, p.Alike q

variable {patterns others : List Pattern} {name otherName : String}

theorem SameRules.mem_map_toInternal (h : SameRules others patterns)
    (hparsed : ∀ p ∈ patterns, p.IsParsed) {p : Pattern} :
    p ∈ others.map Pattern.toInternal ↔ p ∈ patterns := by
  rw [List.mem_map]
  constructor
  · rintro ⟨other, hother, rfl⟩
    obtain ⟨q, hq, halike⟩ := h.forth other hother
    rwa [halike.toInternal_eq (hparsed q hq)]
  · intro hp
    obtain ⟨other, hother, halike⟩ := h.back p hp
    exact ⟨other, hother, halike.toInternal_eq (hparsed p hp)⟩

/-- What a look-up finds depends on the rules and the name up to separators, and neither on the
order of the rules nor on how often they are given. -/
theorem lookup_of_sameRules (hparsed : ∀ p ∈ patterns, p.IsParsed) (h : SameRules others patterns)
    (hname : letters otherName = letters name) :
    (ofPatterns others).lookup otherName = (ofPatterns patterns).lookup name := by
  have hmem (p : Pattern) := h.mem_map_toInternal hparsed (p := p)
  have hinternal : ∀ p ∈ others.map Pattern.toInternal, p.IsParsed := by
    intro p hp
    exact hparsed p ((hmem p).1 hp)
  obtain ⟨found, hfound, hfinds⟩ := lookup_finds hparsed name
  obtain ⟨same, hsame, hsamefinds⟩ := lookup_finds hinternal name
  have hkey : nameKey otherName = nameKey name := nameKey_inj.2 hname
  have heq : same = found := by
    apply Pattern.eq_of_pairwise_precedes hsamefinds.ordered hfinds.ordered
    intro p
    rw [hsamefinds.mem, hfinds.mem, hmem]
  calc
    (ofPatterns others).lookup otherName = (ofPatterns others).lookup name := by
      rw [lookup, lookup, hkey]
    _ = same.map Match.ofPattern := by rw [← ofPatterns_map_toInternal, hsame]
    _ = (ofPatterns patterns).lookup name := by rw [heq, hfound]

end PatternTrie

end ClassSieve
