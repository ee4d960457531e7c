import ClassSieve.Pattern.Trie
import Mathlib.Data.List.Infix

/-!
# Growing a trie

Each node of a trie stands for the path that leads to it from the root. `Branches.Spells` lists
these paths by node, and adding a path to a trie adds to that list at its end. So an insertion
changes what is found at the end of one path and nothing else, and a walk along a path comes by
what is found at the ends of the paths that begin it.
-/
namespace ClassSieve

theorem mem_insertMatch {m n : Match} {found : List Match} :
    n ∈ insertMatch m found ↔ n = m ∨ n ∈ found := by
  induction found with
  | nil => simp [insertMatch]
  | cons first rest ih =>
    rw [insertMatch]
    split
    · exact List.mem_cons
    · split
      · rename_i heq
        simp [heq]
      · simp only [List.mem_cons, ih]
        tauto

theorem pairwise_insertMatch (m : Match) {found : List Match}
    (h : found.Pairwise fun a b => a.rank < b.rank) :
    (insertMatch m found).Pairwise fun a b => a.rank < b.rank := by
  induction found with
  | nil => exact List.pairwise_singleton _ m
  | cons first rest ih =>
    obtain ⟨hfirst, hrest⟩ := List.pairwise_cons.1 h
    rw [insertMatch]
    split
    · rename_i hlt
      refine List.pairwise_cons.2 ⟨fun n hn => ?_, h⟩
      rcases List.mem_cons.1 hn with rfl | hn
      · exact hlt
      · exact hlt.trans (hfirst n hn)
    · rename_i hle
      split
      · exact h
      · rename_i hne
        refine List.pairwise_cons.2 ⟨fun n hn => ?_, ih hrest⟩
        rcases mem_insertMatch.1 hn with rfl | hn
        · exact lt_of_le_of_ne (not_lt.1 hle) fun heq => hne (Match.rank_injective heq).symm
        · exact hfirst n hn

theorem lookup_cons_eq_ite (b byte : UInt8) (target : Nat) (edges : List (UInt8 × Nat)) :
    ((byte, target) :: edges).lookup b = if b = byte then some target else edges.lookup b := by
  by_cases h : b = byte
  · simp [h]
  · rw [List.lookup_cons, beq_eq_false_iff_ne.2 h, if_neg h]

theorem lookup_insertEdge {byte : UInt8} {edges : List (UInt8 × Nat)}
    (h : edges.lookup byte = none) (target : Nat) (b : UInt8) :
    (insertEdge byte target edges).lookup b =
      if b = byte then some target else edges.lookup b := by
  induction edges with
  | nil => exact lookup_cons_eq_ite b byte target []
  | cons edge rest ih =>
    obtain ⟨first, next⟩ := edge
    rw [lookup_cons_eq_ite] at h
    have hne : byte ≠ first := fun heq => by simp [heq] at h
    rw [if_neg hne] at h
    rw [insertEdge]
    split
    · exact lookup_cons_eq_ite b byte target _
    · rw [lookup_cons_eq_ite, lookup_cons_eq_ite, ih h]
      by_cases hb : b = first
      · rw [if_pos hb, if_pos hb, if_neg fun heq => hne (heq.symm.trans hb)]
      · rw [if_neg hb, if_neg hb]

namespace Branches
variable {branches later : Branches} {node target : Nat} {byte : UInt8} {word path : List UInt8}
  {words more : List (List UInt8)}

def reach? (branches : Branches) (node : Nat) : List UInt8 → Option Nat
  | [] => some node
  | byte :: path => (branches.child? node byte).bind fun target => branches.reach? target path

def foundAt (branches : Branches) (node : Nat) (path : List UInt8) : List Match :=
  match branches.reach? node path with
  | some target => branches.terminals target
  | none => []

/-- Whether each node stands for its word in `words`: the root for the empty one, and a child for
the word of its parent with the byte of the edge. -/
structure Spells (branches : Branches) (words : List (List UInt8)) : Prop where
  size : branches.nodes.size = words.length
  root : words[0]? = some []
  nodup : words.Nodup
  child : ∀ {node word}, words[node]? = some word → ∀ byte target,
    branches.child? node byte = some target ↔ words[target]? = some (word ++ [byte])
  parent : ∀ word byte, word ++ [byte] ∈ words → word ∈ words

theorem spells_empty : Spells empty [[]] where
  size := rfl
  root := rfl
  nodup := by simp
  child {node word} h byte target := by
    obtain ⟨rfl, rfl⟩ : node = 0 ∧ word = [] := by
      cases node <;> simp_all
    cases target <;> simp [child?, empty]
  parent word byte h := by simp at h

theorem child?_of_size_le (h : branches.nodes.size ≤ node) (byte : UInt8) :
    branches.child? node byte = none := by
  rw [child?, Array.getElem?_eq_none h]
  rfl

theorem terminals_of_size_le (h : branches.nodes.size ≤ node) : branches.terminals node = [] := by
  rw [terminals, Array.getElem?_eq_none h]

theorem nodes_grow (n : Nat) :
    (branches.grow node byte).nodes[n]? =
      if n = branches.nodes.size then some ⟨[], []⟩
      else if node = n then branches.nodes[n]?.map fun found =>
        { found with edges := insertEdge byte branches.nodes.size found.edges }
      else branches.nodes[n]? := by
  rw [grow, Array.getElem?_push, Array.size_modify, Array.getElem?_modify]

theorem child?_grow (hnode : node < branches.nodes.size) (h : branches.child? node byte = none)
    (n : Nat) (b : UInt8) :
    (branches.grow node byte).child? n b =
      if n = node ∧ b = byte then some branches.nodes.size else branches.child? n b := by
  by_cases hsize : n = branches.nodes.size
  · rw [child?, nodes_grow, if_pos hsize, if_neg fun heq => by omega,
      child?_of_size_le (Nat.le_of_eq hsize.symm)]
    rfl
  rw [child?, nodes_grow, if_neg hsize]
  by_cases heq : node = n
  · subst heq
    rw [child?, Array.getElem?_eq_getElem hnode] at h ⊢
    simp [lookup_insertEdge h]
  · rw [if_neg heq, if_neg fun hboth => heq hboth.1.symm, child?]

theorem terminals_grow (n : Nat) :
    (branches.grow node byte).terminals n = branches.terminals n := by
  by_cases hsize : n = branches.nodes.size
  · rw [terminals, nodes_grow, if_pos hsize, terminals_of_size_le (Nat.le_of_eq hsize.symm)]
  rw [terminals, nodes_grow, if_neg hsize, terminals]
  by_cases heq : node = n
  · rw [if_pos heq]
    cases branches.nodes[n]? <;> rfl
  · rw [if_neg heq]

namespace Spells

theorem eq_of_getElem? (h : Spells branches words) {m n : Nat} (hm : words[m]? = some word)
    (hn : words[n]? = some word) : m = n := by
  obtain ⟨hlt, -⟩ := List.getElem?_eq_some_iff.1 hm
  exact (List.getElem?_inj hlt h.nodup).1 (hm.trans hn.symm)

theorem lt_size (h : Spells branches words) (hnode : words[node]? = some word) :
    node < branches.nodes.size := by
  rw [h.size]
  exact (List.getElem?_eq_some_iff.1 hnode).1

theorem mem_of_append (h : Spells branches words) (word path : List UInt8)
    (hmem : word ++ path ∈ words) : word ∈ words := by
  induction path using List.reverseRecOn with
  | nil => rwa [List.append_nil] at hmem
  | append_singleton path byte ih =>
    rw [← List.append_assoc] at hmem
    exact ih (h.parent _ byte hmem)

theorem reach?_eq_some (h : Spells branches words) (hnode : words[node]? = some word)
    (path : List UInt8) (target : Nat) :
    branches.reach? node path = some target ↔ words[target]? = some (word ++ path) := by
  induction path generalizing node word with
  | nil =>
    rw [reach?, Option.some.injEq, List.append_nil]
    exact ⟨fun heq => heq ▸ hnode, fun htarget => h.eq_of_getElem? hnode htarget⟩
  | cons byte path ih =>
    rw [reach?, Option.bind_eq_some_iff, List.append_cons]
    constructor
    · rintro ⟨middle, hchild, hreach⟩
      exact (ih ((h.child hnode byte middle).1 hchild)).1 hreach
    · intro htarget
      have hmem := h.mem_of_append _ _ (List.mem_of_getElem? htarget)
      obtain ⟨middle, hmiddle⟩ := List.mem_iff_getElem?.1 hmem
      exact ⟨middle, (h.child hnode byte middle).2 hmiddle, (ih hmiddle).2 htarget⟩

theorem not_mem (h : Spells branches words) (hnode : words[node]? = some word)
    (hchild : branches.child? node byte = none) : word ++ [byte] ∉ words := by
  intro hmem
  obtain ⟨target, htarget⟩ := List.mem_iff_getElem?.1 hmem
  rw [(h.child hnode byte target).2 htarget] at hchild
  cases hchild

theorem foundAt_of_getElem? (h : Spells branches words) (htarget : words[target]? = some path) :
    branches.foundAt 0 path = branches.terminals target := by
  rw [foundAt, (h.reach?_eq_some h.root path target).2 htarget]

theorem foundAt_of_not_mem (h : Spells branches words) (hpath : path ∉ words) :
    branches.foundAt 0 path = [] := by
  cases hreach : branches.reach? 0 path with
  | none => rw [foundAt, hreach]
  | some target =>
    have htarget := (h.reach?_eq_some h.root path target).1 hreach
    exact absurd (List.mem_of_getElem? htarget) hpath

theorem getElem?_concat_eq_some {i : Nat} :
    (words ++ [word])[i]? = some path ↔ words[i]? = some path ∨ i = words.length ∧ word = path := by
  rcases Nat.lt_or_ge i words.length with hi | hi
  · rw [List.getElem?_append_left hi]
    simp [hi.ne]
  · rw [List.getElem?_append_right hi, List.getElem?_eq_none hi, List.getElem?_singleton]
    split
    · simp [show i = words.length by omega]
    · simp [show i ≠ words.length by omega]

theorem grow (h : Spells branches words) (hnode : words[node]? = some word)
    (hchild : branches.child? node byte = none) :
    Spells (branches.grow node byte) (words ++ [word ++ [byte]]) where
  size := by simp [Branches.grow, h.size]
  root := by
    rw [List.getElem?_append_left (List.getElem?_eq_some_iff.1 h.root).1]
    exact h.root
  nodup := by
    rw [(List.perm_append_singleton _ words).nodup_iff, List.nodup_cons]
    exact ⟨h.not_mem hnode hchild, h.nodup⟩
  child {n path} hn b target := by
    rw [child?_grow (h.lt_size hnode) hchild, getElem?_concat_eq_some]
    rcases getElem?_concat_eq_some.1 hn with hold | ⟨rfl, rfl⟩
    · by_cases hedge : n = node ∧ b = byte
      · obtain ⟨rfl, rfl⟩ := hedge
        obtain rfl : word = path := Option.some.inj (hnode.symm.trans hold)
        have hnew : words[target]? ≠ some (word ++ [b]) :=
          fun htarget => h.not_mem hnode hchild (List.mem_of_getElem? htarget)
        simp [h.size, hnew, eq_comm]
      · rw [if_neg hedge, h.child hold b target, or_iff_left]
        rintro ⟨-, heq⟩
        obtain ⟨rfl, hb⟩ := List.append_inj' heq rfl
        exact hedge ⟨h.eq_of_getElem? hold hnode, (List.singleton_inj.1 hb).symm⟩
    · -- The new node has no edges, and no word goes on from its own.
      have hnone : branches.child? words.length b = none :=
        child?_of_size_le (Nat.le_of_eq h.size) b
      have hnew : words[target]? ≠ some (word ++ [byte] ++ [b]) := fun htarget =>
        h.not_mem hnode hchild (h.parent _ b (List.mem_of_getElem? htarget))
      have hne : words.length ≠ node := fun heq => by
        rw [← heq, List.getElem?_eq_none (Nat.le_refl _)] at hnode
        cases hnode
      rw [if_neg fun hedge => hne hedge.1, hnone]
      rw [List.append_assoc] at hnew
      simpa using hnew
  parent path b hpath := by
    rw [List.mem_append] at hpath ⊢
    rcases hpath with hold | hnew
    · exact .inl (h.parent path b hold)
    · obtain ⟨rfl, -⟩ := List.append_inj' (List.mem_singleton.1 hnew) rfl
      exact .inl (List.mem_of_getElem? hnode)

end Spells

theorem Spells.extend (h : Spells branches words) (hnode : words[node]? = some word)
    (path : List UInt8) : ∃ more,
      Spells (branches.extend node path).1 (words ++ more) ∧
      (words ++ more)[(branches.extend node path).2]? = some (word ++ path) ∧
      (∀ n, (branches.extend node path).1.terminals n = branches.terminals n) ∧
      ∀ front ∈ more, front <+: word ++ path := by
  induction path generalizing branches node word words with
  | nil =>
    refine ⟨[], ?_, ?_, fun n => rfl, by simp⟩
    · rwa [List.append_nil]
    · rwa [List.append_nil, List.append_nil]
  | cons byte path ih =>
    rw [Branches.extend, List.append_cons]
    cases hchild : branches.child? node byte with
    | some target => exact ih h ((h.child hnode byte target).1 hchild)
    | none =>
      have hnew : (words ++ [word ++ [byte]])[branches.nodes.size]? = some (word ++ [byte]) := by
        simp [h.size]
      obtain ⟨more, hspells, hend, hterminals, hfronts⟩ := ih (h.grow hnode hchild) hnew
      rw [List.append_assoc] at hspells hend
      refine ⟨_, hspells, hend, fun n => (hterminals n).trans (terminals_grow n), ?_⟩
      rw [List.singleton_append, List.forall_mem_cons]
      exact ⟨List.prefix_append _ _, hfronts⟩

theorem Spells.foundAt_eq_of_terminals (h : Spells branches words)
    (hlater : Spells later (words ++ more))
    (hterminals : ∀ n, later.terminals n = branches.terminals n) (path : List UInt8) :
    later.foundAt 0 path = branches.foundAt 0 path := by
  by_cases hpath : path ∈ words ++ more
  · obtain ⟨target, htarget⟩ := List.mem_iff_getElem?.1 hpath
    rw [hlater.foundAt_of_getElem? htarget, hterminals]
    by_cases hold : path ∈ words
    · obtain ⟨found, hfound⟩ := List.mem_iff_getElem?.1 hold
      have hsame : (words ++ more)[found]? = some path := by
        rw [List.getElem?_append_left (List.getElem?_eq_some_iff.1 hfound).1, hfound]
      rw [h.foundAt_of_getElem? hfound, hlater.eq_of_getElem? htarget hsame]
    · -- A node that was added has no terminals, since the old trie has no node of its number.
      rw [h.foundAt_of_not_mem hold]
      refine terminals_of_size_le ?_
      rw [h.size]
      by_contra hlt
      rw [List.getElem?_append_left (not_le.1 hlt)] at htarget
      exact hold (List.mem_of_getElem? htarget)
  · rw [hlater.foundAt_of_not_mem hpath, h.foundAt_of_not_mem fun hold =>
      hpath (List.mem_append_left more hold)]

def Sound (branches : Branches) : Prop := ∃ words, Spells branches words

theorem sound_empty : Sound empty := ⟨_, spells_empty⟩

theorem insert_eq (m : Match) : branches.insert path m =
    ⟨(branches.extend 0 path).1.nodes.modify (branches.extend 0 path).2 fun found =>
      { found with terminals := insertMatch m found.terminals }⟩ := rfl

theorem child?_insert (m : Match) (n : Nat) (b : UInt8) :
    (branches.insert path m).child? n b = (branches.extend 0 path).1.child? n b := by
  rw [insert_eq, child?, child?, Array.getElem?_modify]
  split
  · cases (branches.extend 0 path).1.nodes[n]? <;> rfl
  · rfl

theorem terminals_insert (m : Match)
    (hend : (branches.extend 0 path).2 < (branches.extend 0 path).1.nodes.size) (n : Nat) :
    (branches.insert path m).terminals n =
      if n = (branches.extend 0 path).2 then insertMatch m ((branches.extend 0 path).1.terminals n)
      else (branches.extend 0 path).1.terminals n := by
  rw [insert_eq, terminals, terminals, Array.getElem?_modify]
  by_cases heq : n = (branches.extend 0 path).2
  · rw [if_pos heq.symm, if_pos heq, heq, Array.getElem?_eq_getElem hend]
    rfl
  · rw [if_neg (Ne.symm heq), if_neg heq]

theorem Spells.insert (h : Spells (branches.extend 0 path).1 words) (m : Match) :
    Spells (branches.insert path m) words where
  size := by rw [insert_eq, Array.size_modify, h.size]
  root := h.root
  nodup := h.nodup
  child hnode byte target := by rw [child?_insert, h.child hnode]
  parent := h.parent

theorem Sound.insert (h : branches.Sound) (path : List UInt8) (m : Match) :
    (branches.insert path m).Sound := by
  obtain ⟨words, hwords⟩ := h
  obtain ⟨more, hextended, -⟩ := hwords.extend hwords.root path
  exact ⟨words ++ more, hextended.insert m⟩

theorem Sound.foundAt_insert (h : branches.Sound) (path : List UInt8) (m : Match)
    (q : List UInt8) : (branches.insert path m).foundAt 0 q =
      if q = path then insertMatch m (branches.foundAt 0 q) else branches.foundAt 0 q := by
  obtain ⟨words, hwords⟩ := h
  obtain ⟨more, hextended, hend, hterminals, -⟩ := hwords.extend hwords.root path
  rw [List.nil_append] at hend
  have hsame := hwords.foundAt_eq_of_terminals hextended hterminals q
  have hinserted := hextended.insert m
  by_cases hq : q ∈ words ++ more
  · obtain ⟨target, htarget⟩ := List.mem_iff_getElem?.1 hq
    rw [hinserted.foundAt_of_getElem? htarget, terminals_insert m (hextended.lt_size hend),
      ← hextended.foundAt_of_getElem? htarget, hsame]
    have hiff : target = (branches.extend 0 path).2 ↔ q = path := by
      constructor
      · rintro rfl
        exact Option.some.inj (htarget.symm.trans hend)
      · rintro rfl
        exact hextended.eq_of_getElem? htarget hend
    simp only [hiff]
  · have hne : q ≠ path := fun heq => hq (heq ▸ List.mem_of_getElem? hend)
    rw [hinserted.foundAt_of_not_mem hq, ← hsame, hextended.foundAt_of_not_mem hq, if_neg hne]

theorem foundAt_nil (branches : Branches) (node : Nat) :
    branches.foundAt node [] = branches.terminals node := rfl

theorem foundAt_cons (branches : Branches) (node : Nat) (byte : UInt8) (path : List UInt8) :
    branches.foundAt node (byte :: path) =
      match branches.child? node byte with
      | some target => branches.foundAt target path
      | none => [] := by
  rw [foundAt, reach?]
  cases branches.child? node byte <;> rfl

theorem along_eq (branches : Branches) (node : Nat) (path : List UInt8) :
    branches.along node path = (List.range (path.length + 1)).flatMap fun depth =>
      (branches.foundAt node (path.take depth)).filter fun m =>
        m.kind ≠ .exact || depth = path.length := by
  induction path generalizing node with
  | nil => simp [along, foundAt_nil]
  | cons byte path ih =>
    rw [along, List.length_cons, List.range_succ_eq_map, List.flatMap_cons, List.flatMap_map,
      List.take_zero, foundAt_nil]
    have hroot (m : Match) : (m.kind ≠ .exact || (byte :: path).isEmpty : Bool) =
        (m.kind ≠ .exact || 0 = path.length + 1 : Bool) := by simp
    simp only [hroot, List.take_succ_cons, foundAt_cons]
    cases branches.child? node byte with
    | some target => simp [ih]
    | none => simp

end Branches

end ClassSieve
