import ClassSieve.Proofs.Pattern.Branches
import ClassSieve.Proofs.Pattern.Matching
import Mathlib.Data.List.Nodup

/-!
# What a look-up lists

A look-up in a trie of patterns lists every pattern that matches the name once, in an order that
the patterns alone determine. So neither the order in which they were entered nor how often plays
a part.
-/
namespace ClassSieve

theorem exists_map_eq {α β : Type} {f : α → β} {P : α → Prop} {l : List β}
    (h : ∀ b ∈ l, ∃ a, P a ∧ f a = b) : ∃ as : List α, as.map f = l ∧ ∀ a ∈ as, P a := by
  induction l with
  | nil => exact ⟨[], rfl, fun _ ha => by cases ha⟩
  | cons b l ih =>
    obtain ⟨⟨a, ha, rfl⟩, hl⟩ := List.forall_mem_cons.1 h
    obtain ⟨as, rfl, has⟩ := ih hl
    exact ⟨a :: as, rfl, List.forall_mem_cons.2 ⟨ha, has⟩⟩

namespace Branches
variable {branches : Branches} {key : Pattern → List UInt8} {patterns : List Pattern}

/-- Whether a trie holds the patterns, each at the end of its key. -/
structure Holds (branches : Branches) (key : Pattern → List UInt8) (patterns : List Pattern) :
    Prop where
  sound : branches.Sound
  mem : ∀ path m, m ∈ branches.foundAt 0 path ↔
    ∃ p ∈ patterns, key p = path ∧ Match.ofPattern p = m
  sorted : ∀ path, (branches.foundAt 0 path).Pairwise fun m n => m.rank < n.rank

theorem holds_empty (key : Pattern → List UInt8) : Holds empty key [] := by
  have hnone (path : List UInt8) : empty.foundAt 0 path = [] := by
    cases path <;> rfl
  exact ⟨sound_empty, fun path m => by simp [hnone], fun path => by simp [hnone]⟩

theorem Holds.insert (h : Holds branches key patterns) (p : Pattern) :
    Holds (branches.insert (key p) (Match.ofPattern p)) key (patterns ++ [p]) where
  sound := h.sound.insert _ _
  mem path m := by
    rw [h.sound.foundAt_insert]
    split
    · rename_i hpath
      rw [mem_insertMatch, h.mem]
      simp only [List.mem_append, List.mem_singleton, or_and_right, exists_or, exists_eq_left]
      rw [and_iff_right hpath.symm, or_comm, @eq_comm _ m]
    · rename_i hpath
      rw [h.mem]
      simp only [List.mem_append, List.mem_singleton, or_and_right, exists_or, exists_eq_left]
      rw [or_iff_left fun hnew => hpath hnew.1.symm]
  sorted path := by
    rw [h.sound.foundAt_insert]
    split
    · exact pairwise_insertMatch _ (h.sorted path)
    · exact h.sorted path

theorem Holds.exists_patterns (h : Holds branches key patterns) (hinj : ∀ p ∈ patterns,
      ∀ q ∈ patterns, key p = key q → Match.ofPattern p = Match.ofPattern q → p = q)
    (path : List UInt8) (keep : Match → Bool) :
    ∃ found : List Pattern, (branches.foundAt 0 path).filter keep = found.map Match.ofPattern ∧
      (∀ p, p ∈ found ↔ p ∈ patterns ∧ key p = path ∧ keep (Match.ofPattern p) = true) ∧
      found.Pairwise fun p q => (Match.ofPattern p).rank < (Match.ofPattern q).rank := by
  have horigin : ∀ m ∈ (branches.foundAt 0 path).filter keep,
      ∃ p, (p ∈ patterns ∧ key p = path) ∧ Match.ofPattern p = m := by
    intro m hm
    obtain ⟨p, hp, hkey, hmatch⟩ := (h.mem path m).1 (List.mem_of_mem_filter hm)
    exact ⟨p, ⟨hp, hkey⟩, hmatch⟩
  obtain ⟨found, hfound, horigin⟩ := exists_map_eq horigin
  refine ⟨found, hfound.symm, fun p => ⟨fun hp => ?_, fun ⟨hp, hkey, hkeep⟩ => ?_⟩, ?_⟩
  · have hm := List.mem_map_of_mem (f := Match.ofPattern) hp
    rw [hfound] at hm
    exact ⟨(horigin p hp).1, (horigin p hp).2, List.of_mem_filter hm⟩
  · have hm : Match.ofPattern p ∈ (branches.foundAt 0 path).filter keep :=
      List.mem_filter.2 ⟨(h.mem path _).2 ⟨p, hp, hkey, rfl⟩, hkeep⟩
    rw [← hfound] at hm
    obtain ⟨q, hq, hmatch⟩ := List.mem_map.1 hm
    obtain ⟨hqpatterns, hqkey⟩ := horigin q hq
    rwa [hinj p hp q hqpatterns (hkey.trans hqkey.symm) hmatch.symm]
  · rw [← List.pairwise_map (R := fun m n : Match => m.rank < n.rank), hfound]
    exact (h.sorted path).filter keep

/-- What a walk finds, by patterns: those whose keys begin the path, by length of the key and then
by rank. -/
theorem Holds.along (h : Holds branches key patterns) (hinj : ∀ p ∈ patterns, ∀ q ∈ patterns,
      key p = key q → Match.ofPattern p = Match.ofPattern q → p = q) (path : List UInt8) :
    ∃ found : List Pattern, branches.along 0 path = found.map Match.ofPattern ∧
      (∀ p, p ∈ found ↔ p ∈ patterns ∧ key p <+: path ∧ (p.kind = .exact → key p = path)) ∧
      found.Pairwise fun p q => (key p).length < (key q).length ∨
        key p = key q ∧ (Match.ofPattern p).rank < (Match.ofPattern q).rank := by
  choose part hpart hmem hsorted using fun depth => h.exists_patterns hinj (path.take depth)
    fun m => m.kind ≠ .exact || depth = path.length
  refine ⟨(List.range (path.length + 1)).flatMap part, ?_, fun p => ?_, ?_⟩
  · rw [along_eq, List.map_flatMap]
    simp only [hpart]
  · simp only [List.mem_flatMap, List.mem_range, hmem]
    constructor
    · rintro ⟨depth, -, hp, hkey, hkeep⟩
      refine ⟨hp, hkey ▸ List.take_prefix depth path, fun hkind => ?_⟩
      have hdepth : depth = path.length := by simpa [Match.ofPattern, hkind] using hkeep
      rw [hkey, hdepth, List.take_length]
    · rintro ⟨hp, hkey, hexact⟩
      refine ⟨(key p).length, Nat.lt_succ_of_le hkey.length_le, hp,
        List.prefix_iff_eq_take.1 hkey, ?_⟩
      by_cases hkind : p.kind = .exact
      · simp [hexact hkind]
      · simp [Match.ofPattern, hkind]
  · rw [List.pairwise_flatMap]
    constructor
    · intro depth _
      refine (hsorted depth).imp_of_mem fun hp hq hrank => .inr ⟨?_, hrank⟩
      rw [((hmem depth _).1 hp).2.1, ((hmem depth _).1 hq).2.1]
    · -- What is found at a depth has a key of that length.
      refine List.pairwise_lt_range.imp_of_mem fun hdepth hlonger hlt p hp q hq => .inl ?_
      rw [List.mem_range] at hdepth hlonger
      rw [((hmem _ p).1 hp).2.1, ((hmem _ q).1 hq).2.1, List.length_take, List.length_take]
      omega

end Branches

namespace PatternTrie
open Branches

def isTrailing (p : Pattern) : Bool := p.kind = .trailing

/-- Whether a trie holds the patterns, the trailing ones from their ends. -/
structure Holds (trie : PatternTrie) (patterns : List Pattern) : Prop where
  forward : trie.forward.Holds (fun p => nameKey p.literal) (patterns.filter (!isTrailing ·))
  backward : trie.backward.Holds (fun p => (nameKey p.literal).reverse)
    (patterns.filter isTrailing)

theorem insert_of_trailing (trie : PatternTrie) {p : Pattern} (h : isTrailing p = true) :
    trie.insert p = { trie with
      size := trie.size + 1
      backward := trie.backward.insert (nameKey p.literal).reverse (Match.ofPattern p) } := by
  rw [PatternTrie.insert, of_decide_eq_true h]

theorem insert_of_not_trailing (trie : PatternTrie) {p : Pattern} (h : isTrailing p = false) :
    trie.insert p = { trie with
      size := trie.size + 1
      forward := trie.forward.insert (nameKey p.literal) (Match.ofPattern p) } := by
  have hkind := of_decide_eq_false h
  rw [PatternTrie.insert]
  split
  · next htrailing => exact absurd htrailing hkind
  · rfl

theorem Holds.insert {trie : PatternTrie} {patterns : List Pattern} (h : trie.Holds patterns)
    (p : Pattern) : (trie.insert p).Holds (patterns ++ [p]) := by
  cases htrailing : isTrailing p with
  | true =>
    rw [insert_of_trailing trie htrailing]
    constructor
    · simpa [htrailing] using h.forward
    · simpa [htrailing] using h.backward.insert p
  | false =>
    rw [insert_of_not_trailing trie htrailing]
    constructor
    · simpa [htrailing] using h.forward.insert p
    · simpa [htrailing] using h.backward

theorem holds_ofPatterns (patterns : List Pattern) : (ofPatterns patterns).Holds patterns := by
  induction patterns using List.reverseRecOn with
  | nil => exact ⟨holds_empty _, holds_empty _⟩
  | append_singleton patterns p ih =>
    rw [ofPatterns, List.foldl_append]
    exact ih.insert p

end PatternTrie

namespace Pattern
variable {p q : Pattern}

/-- The order of a look-up: whole names and beginnings before ends, and each by length; of one
literal a beginning before the whole name, and what includes before what excludes. -/
inductive Precedes : Pattern → Pattern → Prop where
  | side {p q : Pattern} : p.kind ≠ .trailing → q.kind = .trailing → Precedes p q
  | length {p q : Pattern} : (p.kind = .trailing ↔ q.kind = .trailing) →
    p.literal.utf8ByteSize < q.literal.utf8ByteSize → Precedes p q
  | kind {p q : Pattern} : p.literal = q.literal → p.kind = .leading → q.kind = .exact →
    Precedes p q
  | verdict {p q : Pattern} : p.literal = q.literal → p.kind = q.kind →
    p.verdict = .included → q.verdict = .excluded → Precedes p q

theorem Precedes.asymm (h : Precedes p q) : ¬ Precedes q p := by
  intro hback
  cases h <;> cases hback <;> simp_all
  omega

theorem precedes_of_rank (hside : p.kind = .trailing ↔ q.kind = .trailing)
    (hliteral : p.literal = q.literal)
    (hrank : (Match.ofPattern p).rank < (Match.ofPattern q).rank) : Precedes p q := by
  simp only [Match.rank, Match.ofPattern, specificity, hliteral] at hrank
  by_cases hkind : p.kind = q.kind
  · have hverdict : p.verdict.rank < q.verdict.rank := by
      rw [hkind] at hrank
      omega
    obtain ⟨hp, hq⟩ : p.verdict = .included ∧ q.verdict = .excluded := by
      cases hp : p.verdict <;> cases hq : q.verdict <;> simp_all [Verdict.rank]
    exact .verdict hliteral hkind hp hq
  · have hverdict : q.verdict.rank ≤ 1 := by cases q.verdict <;> simp [Verdict.rank]
    obtain ⟨hp, hq⟩ : p.kind = .leading ∧ q.kind = .exact := by
      cases hp : p.kind <;> cases hq : q.kind <;> simp_all [PatternKind.rank]
      omega
    exact .kind hliteral hp hq

theorem eq_of_ofPattern (hp : p.IsParsed) (hq : q.IsParsed)
    (hkey : nameKey p.literal = nameKey q.literal)
    (hmatch : Match.ofPattern p = Match.ofPattern q) : p = q := by
  have hliteral := hp.literal_eq hq hkey
  simp only [Match.ofPattern, Match.mk.injEq] at hmatch
  rcases p with ⟨kind, literal, verdict⟩
  rcases q with ⟨kind', literal', verdict'⟩
  simp_all

theorem nodup_of_precedes {found : List Pattern} (h : found.Pairwise Precedes) : found.Nodup :=
  h.imp fun hlt heq => (heq ▸ hlt).asymm (heq ▸ hlt)

theorem eq_of_pairwise_precedes {found others : List Pattern} (h : found.Pairwise Precedes)
    (hothers : others.Pairwise Precedes) (hmem : ∀ p, p ∈ found ↔ p ∈ others) :
    found = others := by
  refine List.Perm.eq_of_pairwise (fun p q _ _ hpq hqp => absurd hqp hpq.asymm) h hothers ?_
  exact (List.perm_ext_iff_of_nodup (nodup_of_precedes h) (nodup_of_precedes hothers)).2 hmem

theorem matches_iff_prefix (hkind : p.kind ≠ .trailing) (name : String) :
    p.Matches name ↔ nameKey p.literal <+: nameKey name ∧
      (p.kind = .exact → nameKey p.literal = nameKey name) := by
  rw [Matches, nameKey_prefix, nameKey_inj]
  cases hp : p.kind with
  | exact => simpa using fun h => h ▸ List.prefix_refl _
  | leading => simp
  | trailing => exact absurd hp hkind

theorem matches_iff_suffix (hkind : p.kind = .trailing) (name : String) :
    p.Matches name ↔ (nameKey p.literal).reverse <+: (nameKey name).reverse := by
  rw [Matches, hkind, List.reverse_prefix, nameKey_suffix]

end Pattern

namespace PatternTrie
open Pattern

/-- Whether `found` lists what a look-up of `name` finds among the patterns, in order. -/
structure Finds (patterns : List Pattern) (name : String) (found : List Pattern) : Prop where
  mem : ∀ p, p ∈ found ↔ p ∈ patterns ∧ p.Matches name
  ordered : found.Pairwise Precedes

section
variable {patterns : List Pattern} {name : String}

theorem holds_finds {branches : Branches} {key : Pattern → List UInt8} {path : List UInt8}
    (h : branches.Holds key patterns) (hparsed : ∀ p ∈ patterns, p.IsParsed)
    (hside : ∀ p ∈ patterns, ∀ q ∈ patterns, p.kind = .trailing ↔ q.kind = .trailing)
    (hlength : ∀ p, (key p).length = (nameKey p.literal).length)
    (hkey : ∀ p q, key p = key q → nameKey p.literal = nameKey q.literal)
    (hmatches : ∀ p ∈ patterns,
      p.Matches name ↔ key p <+: path ∧ (p.kind = .exact → key p = path)) :
    ∃ found, branches.along 0 path = found.map Match.ofPattern ∧ Finds patterns name found := by
  obtain ⟨found, hfound, hmem, hordered⟩ := h.along
    (fun p hp q hq heq => eq_of_ofPattern (hparsed p hp) (hparsed q hq) (hkey p q heq)) path
  refine ⟨found, hfound, fun p => ?_, hordered.imp_of_mem fun {p q} hp hq horder => ?_⟩
  · rw [hmem]
    exact and_congr_right fun hp => (hmatches p hp).symm
  · have hp := ((hmem p).1 hp).1
    have hq := ((hmem q).1 hq).1
    rcases horder with hlt | ⟨heq, hrank⟩
    · rw [hlength, hlength, (hparsed p hp).length_nameKey, (hparsed q hq).length_nameKey] at hlt
      exact .length (hside p hp q hq) hlt
    · have hliteral := (hparsed p hp).literal_eq (hparsed q hq) (hkey p q heq)
      exact precedes_of_rank (hside p hp q hq) hliteral hrank

theorem forward_finds (h : ∀ p ∈ patterns, p.IsParsed) (name : String) :
    ∃ front, (ofPatterns patterns).forward.along 0 (nameKey name) = front.map Match.ofPattern ∧
      Finds (patterns.filter (!isTrailing ·)) name front := by
  have hkind : ∀ p ∈ patterns.filter (!isTrailing ·), p.kind ≠ .trailing := by
    simp [isTrailing]
  refine holds_finds (holds_ofPatterns patterns).forward
    (fun p hp => h p (List.mem_of_mem_filter hp)) (fun p hp q hq => ?_) (fun p => rfl)
    (fun p q => id) fun p hp => matches_iff_prefix (hkind p hp) name
  exact iff_of_false (hkind p hp) (hkind q hq)

theorem backward_finds (h : ∀ p ∈ patterns, p.IsParsed) (name : String) :
    ∃ back, (ofPatterns patterns).backward.along 0 (nameKey name).reverse =
        back.map Match.ofPattern ∧ Finds (patterns.filter isTrailing) name back := by
  have hkind : ∀ p ∈ patterns.filter isTrailing, p.kind = .trailing := by
    simp [isTrailing]
  refine holds_finds (holds_ofPatterns patterns).backward
    (fun p hp => h p (List.mem_of_mem_filter hp)) (fun p hp q hq => ?_)
    (fun p => List.length_reverse) (fun p q => List.reverse_injective.eq_iff.1) fun p hp => ?_
  · exact iff_of_true (hkind p hp) (hkind q hq)
  · rw [matches_iff_suffix (hkind p hp), and_iff_left fun hexact => ?_]
    rw [hkind p hp] at hexact
    cases hexact

end

theorem lookup_finds {patterns : List Pattern} (h : ∀ p ∈ patterns, p.IsParsed) (name : String) :
    ∃ found, (ofPatterns patterns).lookup name = found.map Match.ofPattern ∧
      Finds patterns name found := by
  obtain ⟨front, hfront, hfrontfinds⟩ := forward_finds h name
  obtain ⟨back, hback, hbackfinds⟩ := backward_finds h name
  refine ⟨front ++ back, ?_, fun p => ?_, ?_⟩
  · rw [lookup, hfront, hback, List.map_append]
  · rw [List.mem_append, hfrontfinds.mem, hbackfinds.mem, List.mem_filter, List.mem_filter]
    cases isTrailing p <;> simp
  · refine List.pairwise_append.2 ⟨hfrontfinds.ordered, hbackfinds.ordered, fun p hp q hq => ?_⟩
    have hpkind := List.of_mem_filter ((hfrontfinds.mem p).1 hp).1
    have hqkind := List.of_mem_filter ((hbackfinds.mem q).1 hq).1
    exact .side (by simpa [isTrailing] using hpkind) (by simpa [isTrailing] using hqkind)

/-- A look-up lists the patterns that match the name, each once and in the order of `Precedes`;
nothing but which patterns were entered matters. -/
theorem lookup_enumerates (patterns : List Pattern) (name : String)
    (hparsed : ∀ p ∈ patterns, p.IsParsed) :
    ∃ found : List Pattern, (ofPatterns patterns).lookup name = found.map Match.ofPattern ∧
      found.Nodup ∧ (∀ p, p ∈ found ↔ p ∈ patterns ∧ p.Matches name) ∧
      found.Pairwise Precedes ∧
      ∀ others : List Pattern, (∀ p, p ∈ others ↔ p ∈ patterns) →
        (ofPatterns others).lookup name = found.map Match.ofPattern := by
  obtain ⟨found, hlookup, hfinds⟩ := lookup_finds hparsed name
  refine ⟨found, hlookup, nodup_of_precedes hfinds.ordered, hfinds.mem, hfinds.ordered, ?_⟩
  intro others hmem
  have hothers : ∀ p ∈ others, p.IsParsed := fun p hp => hparsed p ((hmem p).1 hp)
  obtain ⟨same, hsame, hsamefinds⟩ := lookup_finds hothers name
  rw [hsame, eq_of_pairwise_precedes hsamefinds.ordered hfinds.ordered fun p => ?_]
  rw [hsamefinds.mem, hfinds.mem, hmem]

def samplePatterns : List Pattern :=
  [⟨.exact, "com/foo/Bar", .excluded⟩, ⟨.trailing, "Bar", .included⟩,
    ⟨.exact, "com/foo/Bar", .included⟩, ⟨.leading, "com/foo/", .excluded⟩,
    ⟨.leading, "org/", .included⟩]

theorem isParsed_samplePatterns : ∀ p ∈ samplePatterns, p.IsParsed := by
  intro p hp
  simp only [samplePatterns, List.mem_cons, List.not_mem_nil, or_false] at hp
  rcases hp with rfl | rfl | rfl | rfl | rfl
  · exact ⟨"com.foo.Bar", .excluded, by decide +kernel⟩
  · exact ⟨"*Bar", .included, by decide +kernel⟩
  · exact ⟨"com/foo.Bar", .included, by decide +kernel⟩
  · exact ⟨" com.foo.* ", .excluded, by decide +kernel⟩
  · exact ⟨"org.*", .included, by decide +kernel⟩

theorem lookup_enumerates_sample : (∀ p ∈ samplePatterns, p.IsParsed) ∧
    (ofPatterns samplePatterns).lookup "com.foo/Bar" =
      (ofPatterns (samplePatterns.reverse ++ samplePatterns)).lookup "com.foo/Bar" ∧
    (ofPatterns samplePatterns).lookup "com.foo/Bar" =
      [⟨16, .excluded, .leading⟩, ⟨23, .included, .exact⟩, ⟨23, .excluded, .exact⟩,
        ⟨6, .included, .trailing⟩] := by
  obtain ⟨found, hlookup, -, -, -, hothers⟩ :=
    lookup_enumerates samplePatterns "com.foo/Bar" isParsed_samplePatterns
  refine ⟨isParsed_samplePatterns, ?_, by decide +kernel⟩
  rw [hlookup, hothers (samplePatterns.reverse ++ samplePatterns) (by simp)]

end PatternTrie

end ClassSieve
