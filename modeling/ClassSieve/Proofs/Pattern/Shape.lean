import ClassSieve.Proofs.Pattern.Lookup

/-!
# The shape of a trie

However patterns are added, the nodes of a trie form a tree: each but the root is the target of one
edge, which comes from an earlier node. The edges of a node stand by increasing byte, so that a
binary search finds them, and a path leads to a node just when it begins one that was added.
-/
namespace ClassSieve

/-- Where `byte` stands among the `size` edges from `low` on, if it stands there at all: the part
that is left is halved until it has one edge. -/
def bisect (byte : UInt8) (edges : List (UInt8 × Nat)) (low size : Nat) : Nat :=
  if size ≤ 1 then low
  else
    match edges[low + size / 2]? with
    | some edge =>
      if byte < edge.1 then bisect byte edges low (size - size / 2)
      else bisect byte edges (low + size / 2) (size - size / 2)
    | none => low
termination_by size

def searchEdge (byte : UInt8) (edges : List (UInt8 × Nat)) : Option Nat :=
  match edges[bisect byte edges 0 edges.length]? with
  | some edge => if edge.1 = byte then some edge.2 else none
  | none => none

def Ascending (edges : List (UInt8 × Nat)) : Prop := edges.Pairwise fun a b => a.1 < b.1

theorem mem_insertEdge {byte : UInt8} {target : Nat} {edges : List (UInt8 × Nat)}
    {edge : UInt8 × Nat} :
    edge ∈ insertEdge byte target edges ↔ edge = (byte, target) ∨ edge ∈ edges := by
  induction edges with
  | nil => simp [insertEdge]
  | cons first rest ih =>
    rw [insertEdge]
    split
    · exact List.mem_cons
    · simp only [List.mem_cons, ih]
      tauto

namespace Ascending
variable {byte : UInt8} {edges : List (UInt8 × Nat)} {target : Nat}

theorem lt_of_lt (h : Ascending edges) {i j : Nat} {first second : UInt8 × Nat}
    (hi : edges[i]? = some first) (hj : edges[j]? = some second) (hij : i < j) :
    first.1 < second.1 := by
  obtain ⟨hilt, rfl⟩ := List.getElem?_eq_some_iff.1 hi
  obtain ⟨hjlt, rfl⟩ := List.getElem?_eq_some_iff.1 hj
  exact List.pairwise_iff_getElem.1 h i j hilt hjlt hij

theorem bisect_eq (h : Ascending edges) {i low size : Nat} (hi : edges[i]? = some (byte, target))
    (hlow : low ≤ i) (hhigh : i < low + size) (hsize : low + size ≤ edges.length) :
    bisect byte edges low size = i := by
  fun_induction bisect byte edges low size with
  | case1 low size hone => omega
  | case2 low size hmany edge hedge hlt ih =>
    -- The byte stands in front of the middle.
    have hfront : i < low + size / 2 := by
      by_contra hge
      rcases Nat.lt_or_eq_of_le (not_lt.1 hge) with hafter | hat
      · exact UInt8.lt_asymm hlt (h.lt_of_lt hedge hi hafter)
      · rw [hat, hi] at hedge
        cases hedge
        exact UInt8.lt_irrefl _ hlt
    exact ih hlow (by omega) (by omega)
  | case3 low size hmany edge hedge hle ih =>
    have hback : low + size / 2 ≤ i := by
      by_contra hlt
      exact hle (h.lt_of_lt hi hedge (not_le.1 hlt))
    exact ih hback (by omega) (by omega)
  | case4 low size hmany hnone =>
    rw [List.getElem?_eq_none_iff] at hnone
    omega

theorem searchEdge_eq_some_iff (h : Ascending edges) :
    searchEdge byte edges = some target ↔ (byte, target) ∈ edges := by
  constructor
  · intro hfound
    rw [searchEdge] at hfound
    split at hfound
    · next edge hedge =>
      split at hfound
      · next hbyte =>
        cases hfound
        rw [← hbyte]
        exact List.mem_of_getElem? hedge
      · cases hfound
    · cases hfound
  · intro hmem
    obtain ⟨i, hi⟩ := List.mem_iff_getElem?.1 hmem
    have hlt := (List.getElem?_eq_some_iff.1 hi).1
    have hat := h.bisect_eq hi (Nat.zero_le i) (by omega) (Nat.le_of_eq (Nat.zero_add _))
    rw [searchEdge, hat, hi]
    exact if_pos rfl

theorem lookup_eq_some_iff (h : Ascending edges) :
    edges.lookup byte = some target ↔ (byte, target) ∈ edges := by
  induction edges with
  | nil => simp
  | cons edge rest ih =>
    obtain ⟨first, next⟩ := edge
    obtain ⟨hfirst, hrest⟩ := List.pairwise_cons.1 h
    rw [lookup_cons_eq_ite, List.mem_cons, Prod.mk.injEq]
    by_cases heq : byte = first
    · have hrest : (byte, target) ∉ rest := by
        intro hmem
        exact UInt8.lt_irrefl byte (heq ▸ hfirst _ hmem)
      simp [heq, heq ▸ hrest, eq_comm]
    · simp [heq, ih hrest]

theorem lookup_eq_searchEdge (h : Ascending edges) (byte : UInt8) :
    edges.lookup byte = searchEdge byte edges := by
  apply Option.ext
  intro target
  rw [h.lookup_eq_some_iff, h.searchEdge_eq_some_iff]

theorem insertEdge (h : Ascending edges) (hnone : edges.lookup byte = none) (target : Nat) :
    Ascending (ClassSieve.insertEdge byte target edges) := by
  induction edges with
  | nil => exact List.pairwise_singleton _ _
  | cons edge rest ih =>
    obtain ⟨first, next⟩ := edge
    obtain ⟨hfirst, hrest⟩ := List.pairwise_cons.1 h
    rw [lookup_cons_eq_ite] at hnone
    have hne : byte ≠ first := fun heq => by simp [heq] at hnone
    rw [if_neg hne] at hnone
    rw [ClassSieve.insertEdge]
    split
    · next hlt =>
      refine List.pairwise_cons.2 ⟨fun edge hedge => ?_, h⟩
      rcases List.mem_cons.1 hedge with rfl | hedge
      · exact hlt
      · exact UInt8.lt_trans hlt (hfirst edge hedge)
    · next hle =>
      refine List.pairwise_cons.2 ⟨fun edge hedge => ?_, ih hrest hnone⟩
      rcases mem_insertEdge.1 hedge with rfl | hedge
      · exact UInt8.lt_of_le_of_ne (UInt8.not_lt.1 hle) (Ne.symm hne)
      · exact hfirst edge hedge

end Ascending

namespace Branches
variable {branches : Branches} {node target : Nat} {byte : UInt8} {word path : List UInt8}
  {words paths : List (List UInt8)}

def edges (branches : Branches) (node : Nat) : List (UInt8 × Nat) :=
  branches.nodes[node]?.elim [] (·.edges)

theorem child?_eq_lookup (branches : Branches) (node : Nat) (byte : UInt8) :
    branches.child? node byte = (branches.edges node).lookup byte := by
  rw [child?, edges]
  cases branches.nodes[node]? <;> rfl

theorem edges_of_size_le (h : branches.nodes.size ≤ node) : branches.edges node = [] := by
  rw [edges, Array.getElem?_eq_none h]
  rfl

theorem size_grow : (branches.grow node byte).nodes.size = branches.nodes.size + 1 := by
  simp [grow]

theorem edges_grow (hnode : node < branches.nodes.size) (n : Nat) :
    (branches.grow node byte).edges n =
      if n = node then insertEdge byte branches.nodes.size (branches.edges n)
      else branches.edges n := by
  by_cases hnew : n = branches.nodes.size
  · rw [edges_of_size_le (Nat.le_of_eq hnew.symm), if_neg (by omega), edges, nodes_grow,
      if_pos hnew]
    rfl
  rw [edges, nodes_grow, if_neg hnew, edges]
  by_cases heq : n = node
  · rw [if_pos heq.symm, if_pos heq, heq, Array.getElem?_eq_getElem hnode]
    rfl
  · rw [if_neg (Ne.symm heq), if_neg heq]

theorem edges_insert (path : List UInt8) (m : Match) (n : Nat) :
    (branches.insert path m).edges n = (branches.extend 0 path).1.edges n := by
  rw [insert_eq, edges, edges, Array.getElem?_modify]
  split
  · cases (branches.extend 0 path).1.nodes[n]? <;> rfl
  · rfl

/-- The edges of a node stand by increasing byte, and each leads to a later node. -/
structure Ordered (branches : Branches) : Prop where
  ascending : ∀ node, Ascending (branches.edges node)
  later : ∀ {node byte target}, (byte, target) ∈ branches.edges node →
    node < target ∧ target < branches.nodes.size

namespace Ordered

theorem child?_eq_some_iff (h : branches.Ordered) :
    branches.child? node byte = some target ↔ (byte, target) ∈ branches.edges node := by
  rw [child?_eq_lookup, (h.ascending node).lookup_eq_some_iff]

theorem empty : Ordered Branches.empty := by
  have hnone (node : Nat) : Branches.empty.edges node = [] := by
    cases node <;> rfl
  refine ⟨fun node => ?_, fun {node byte target} hedge => ?_⟩
  · rw [hnone]
    exact List.Pairwise.nil
  · rw [hnone] at hedge
    cases hedge

theorem grow (h : branches.Ordered) (hnode : node < branches.nodes.size)
    (hchild : branches.child? node byte = none) : (branches.grow node byte).Ordered where
  ascending n := by
    rw [edges_grow hnode]
    split
    · next heq =>
      rw [child?_eq_lookup, ← heq] at hchild
      exact (h.ascending n).insertEdge hchild _
    · exact h.ascending n
  later {n b target} hedge := by
    have hold (hbefore : (b, target) ∈ branches.edges n) :
        n < target ∧ target < (branches.grow node byte).nodes.size := by
      have hlater := h.later hbefore
      rw [size_grow]
      omega
    rw [edges_grow hnode] at hedge
    split at hedge
    · next heq =>
      rcases mem_insertEdge.1 hedge with hnew | hbefore
      · cases hnew
        rw [size_grow]
        omega
      · exact hold hbefore
    · exact hold hedge

theorem extend (h : branches.Ordered) (hnode : node < branches.nodes.size) (path : List UInt8) :
    (branches.extend node path).1.Ordered := by
  induction path generalizing branches node with
  | nil => exact h
  | cons byte path ih =>
    rw [Branches.extend]
    cases hchild : branches.child? node byte with
    | some target => exact ih h (h.later (h.child?_eq_some_iff.1 hchild)).2
    | none =>
      apply ih (h.grow hnode hchild)
      rw [size_grow]
      exact Nat.lt_succ_self _

theorem insert (h : branches.Ordered) (hroot : 0 < branches.nodes.size) (path : List UInt8)
    (m : Match) : (branches.insert path m).Ordered := by
  have hextended := h.extend hroot path
  have hsize : (branches.insert path m).nodes.size = (branches.extend 0 path).1.nodes.size := by
    rw [insert_eq, Array.size_modify]
  refine ⟨fun n => ?_, fun {n b target} hedge => ?_⟩
  · rw [edges_insert]
    exact hextended.ascending n
  · rw [edges_insert] at hedge
    rw [hsize]
    exact hextended.later hedge

end Ordered

/-- The nodes stand for the beginnings of the paths that were added. -/
structure Grown (branches : Branches) (paths : List (List UInt8)) : Prop where
  ordered : branches.Ordered
  spells : ∃ words, Spells branches words ∧
    ∀ word, word ∈ words ↔ word = [] ∨ ∃ path ∈ paths, word <+: path

theorem grown_empty : Grown empty [] :=
  ⟨Ordered.empty, [[]], spells_empty, by simp⟩

theorem Grown.insert (h : branches.Grown paths) (path : List UInt8) (m : Match) :
    (branches.insert path m).Grown (paths ++ [path]) := by
  obtain ⟨words, hwords, hmem⟩ := h.spells
  obtain ⟨more, hextended, hend, -, hfronts⟩ := hwords.extend hwords.root path
  refine ⟨h.ordered.insert (hwords.lt_size hwords.root) path m, words ++ more,
    hextended.insert m, fun word => ?_⟩
  constructor
  · intro hword
    rcases List.mem_append.1 hword with hold | hnew
    · refine ((hmem word).1 hold).imp_right ?_
      rintro ⟨front, hfront, hle⟩
      exact ⟨front, List.mem_append_left _ hfront, hle⟩
    · exact Or.inr ⟨path, List.mem_concat_self, hfronts word hnew⟩
  · rintro (rfl | ⟨front, hfront, hle⟩)
    · exact List.mem_append_left more (List.mem_of_getElem? hwords.root)
    · rcases List.mem_append.1 hfront with hold | hnew
      · exact List.mem_append_left more ((hmem word).2 (Or.inr ⟨front, hold, hle⟩))
      · obtain ⟨rest, hrest⟩ := hle
        apply hextended.mem_of_append word rest
        rw [hrest, List.mem_singleton.1 hnew]
        exact List.mem_of_getElem? hend

/-- What a trie is that matches were added to, each at the end of a path. -/
structure Represents (branches : Branches) (added : List (List UInt8 × Match)) : Prop where
  ascending : ∀ node, Ascending (branches.edges node)
  search : ∀ node byte target,
    searchEdge byte (branches.edges node) = some target ↔ (byte, target) ∈ branches.edges node
  child : ∀ node byte, branches.child? node byte = searchEdge byte (branches.edges node)
  later : ∀ node byte target, (byte, target) ∈ branches.edges node →
    node < target ∧ target < branches.nodes.size
  /-- Each node but the root has one edge that leads to it. -/
  parent : ∀ target, 0 < target → target < branches.nodes.size →
    ∃! place : Nat × UInt8, (place.2, target) ∈ branches.edges place.1
  sorted : ∀ node, (branches.terminals node).Pairwise fun m n => m.rank < n.rank
  terminals : ∀ path node, branches.reach? 0 path = some node →
    ∀ m, m ∈ branches.terminals node ↔ (path, m) ∈ added
  reach : ∀ path, (branches.reach? 0 path).isSome ↔
    path = [] ∨ ∃ entry ∈ added, path <+: entry.1

theorem Spells.exists_parent (h : Spells branches words) (hordered : branches.Ordered)
    (hzero : 0 < target) (hsize : target < branches.nodes.size) :
    ∃! place : Nat × UInt8, (place.2, target) ∈ branches.edges place.1 := by
  rw [h.size] at hsize
  obtain ⟨word, hword⟩ : ∃ word, words[target]? = some word := ⟨_, List.getElem?_eq_getElem hsize⟩
  have hne : word ≠ [] := by
    rintro rfl
    exact hzero.ne (h.eq_of_getElem? h.root hword)
  obtain ⟨front, byte, rfl⟩ := (List.eq_nil_or_concat word).resolve_left hne
  rw [List.concat_eq_append] at hword
  obtain ⟨node, hnode⟩ := List.mem_iff_getElem?.1 (h.parent front byte (List.mem_of_getElem? hword))
  refine ⟨(node, byte), hordered.child?_eq_some_iff.1 ((h.child hnode byte target).2 hword), ?_⟩
  rintro ⟨other, first⟩ hedge
  have hother : other < branches.nodes.size := by
    by_contra hge
    rw [edges_of_size_le (not_lt.1 hge)] at hedge
    cases hedge
  rw [h.size] at hother
  have hfound := List.getElem?_eq_getElem hother
  have hsame := (h.child hfound first target).1 (hordered.child?_eq_some_iff.2 hedge)
  rw [hword, Option.some.injEq] at hsame
  obtain ⟨hfront, hbyte⟩ := List.append_inj' hsame rfl
  rw [← hfront] at hfound
  rw [h.eq_of_getElem? hfound hnode, List.singleton_inj.1 hbyte]

theorem Grown.represents {key : Pattern → List UInt8} {patterns : List Pattern}
    (h : branches.Grown (patterns.map key)) (hholds : branches.Holds key patterns) :
    branches.Represents (patterns.map fun p => (key p, Match.ofPattern p)) := by
  obtain ⟨words, hwords, hmem⟩ := h.spells
  refine ⟨h.ordered.ascending, fun node byte target => ?_, fun node byte => ?_,
    fun node byte target => h.ordered.later, fun target => hwords.exists_parent h.ordered,
    fun node => ?_, fun path node hreach m => ?_, fun path => ?_⟩
  · exact (h.ordered.ascending node).searchEdge_eq_some_iff
  · rw [child?_eq_lookup, (h.ordered.ascending node).lookup_eq_searchEdge]
  · rcases Nat.lt_or_ge node words.length with hlt | hge
    · rw [← hwords.foundAt_of_getElem? (List.getElem?_eq_getElem hlt)]
      exact hholds.sorted _
    · rw [terminals_of_size_le (hwords.size ▸ hge)]
      exact List.Pairwise.nil
  · have hfound := hholds.mem path m
    rw [foundAt, hreach] at hfound
    rw [hfound, List.mem_map]
    simp only [Prod.mk.injEq]
  · have hiff : (branches.reach? 0 path).isSome ↔ path ∈ words := by
      rw [Option.isSome_iff_exists, List.mem_iff_getElem?]
      exact exists_congr fun target => hwords.reach?_eq_some hwords.root path target
    rw [hiff, hmem]
    simp

end Branches

namespace PatternTrie
open Branches

theorem grown_ofPatterns (patterns : List Pattern) :
    (ofPatterns patterns).forward.Grown
        ((patterns.filter (!isTrailing ·)).map fun p => nameKey p.literal) ∧
      (ofPatterns patterns).backward.Grown
        ((patterns.filter isTrailing).map fun p => (nameKey p.literal).reverse) := by
  induction patterns using List.reverseRecOn with
  | nil => exact ⟨grown_empty, grown_empty⟩
  | append_singleton patterns p ih =>
    obtain ⟨hforward, hbackward⟩ := ih
    rw [ofPatterns, List.foldl_append]
    change (PatternTrie.insert (ofPatterns patterns) p).forward.Grown _ ∧
      (PatternTrie.insert (ofPatterns patterns) p).backward.Grown _
    cases htrailing : isTrailing p with
    | true =>
      rw [insert_of_trailing _ htrailing]
      constructor
      · simpa [htrailing] using hforward
      · simpa [htrailing] using hbackward.insert _ (Match.ofPattern p)
    | false =>
      rw [insert_of_not_trailing _ htrailing]
      constructor
      · simpa [htrailing] using hforward.insert _ (Match.ofPattern p)
      · simpa [htrailing] using hbackward

/-- However patterns are added, both tries of them are in order: of each node the edges stand by
increasing byte and lead to later nodes, each node but the root is led to by one edge, and what
stands at the end of a path are the matches that were added there. -/
theorem ofPatterns_represents (patterns : List Pattern) :
    (ofPatterns patterns).forward.Represents
        ((patterns.filter (!isTrailing ·)).map fun p => (nameKey p.literal, Match.ofPattern p)) ∧
      (ofPatterns patterns).backward.Represents
        ((patterns.filter isTrailing).map fun p =>
          ((nameKey p.literal).reverse, Match.ofPattern p)) := by
  obtain ⟨hforward, hbackward⟩ := grown_ofPatterns patterns
  have hholds := holds_ofPatterns patterns
  exact ⟨hforward.represents hholds.forward, hbackward.represents hholds.backward⟩

end PatternTrie

end ClassSieve
