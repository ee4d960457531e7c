import ClassSieve.Pattern

/-!
# Tries of name patterns

Patterns are kept in two tries over the bytes of names: one walks a name from its start and holds
the exact and leading patterns, the other walks it from its end and holds the trailing ones. The
nodes of a trie stand in an array and refer to one another by position; an edge always leads to a
later node. A look-up follows the name once through each trie, whatever the number of patterns.
-/
namespace ClassSieve

/-- The bytes of a name in UTF-8, with one separator for packages. -/
def nameKey (name : String) : List UInt8 :=
  (name.toList.map ClassName.slashed).flatMap String.utf8EncodeChar

structure TrieNode where
  edges : List (UInt8 × Nat)
  /-- The patterns whose literal ends here, by increasing rank. -/
  terminals : List Match
  deriving Repr

structure Branches where
  nodes : Array TrieNode
  deriving Repr

def insertEdge (byte : UInt8) (target : Nat) : List (UInt8 × Nat) → List (UInt8 × Nat)
  | [] => [(byte, target)]
  | edge :: rest =>
    if byte < edge.1 then (byte, target) :: edge :: rest
    else edge :: insertEdge byte target rest

def insertMatch (m : Match) : List Match → List Match
  | [] => [m]
  | first :: rest =>
    if m.rank < first.rank then m :: first :: rest
    else if m = first then first :: rest
    else first :: insertMatch m rest

namespace Branches

def empty : Branches := ⟨#[⟨[], []⟩]⟩

def child? (branches : Branches) (node : Nat) (byte : UInt8) : Option Nat :=
  branches.nodes[node]?.bind fun found => found.edges.lookup byte

def terminals (branches : Branches) (node : Nat) : List Match :=
  match branches.nodes[node]? with
  | some found => found.terminals
  | none => []

def grow (branches : Branches) (node : Nat) (byte : UInt8) : Branches :=
  let target := branches.nodes.size
  ⟨(branches.nodes.modify node fun found =>
    { found with edges := insertEdge byte target found.edges }).push ⟨[], []⟩⟩

def extend (branches : Branches) (node : Nat) : List UInt8 → Branches × Nat
  | [] => (branches, node)
  | byte :: path =>
    match branches.child? node byte with
    | some target => branches.extend target path
    | none => (branches.grow node byte).extend branches.nodes.size path

def insert (branches : Branches) (path : List UInt8) (m : Match) : Branches :=
  let (extended, node) := branches.extend 0 path
  ⟨extended.nodes.modify node fun found =>
    { found with terminals := insertMatch m found.terminals }⟩

/-- The matches on the way along a path from `node`; an exact one counts only at the path's end. -/
def along (branches : Branches) (node : Nat) (path : List UInt8) : List Match :=
  (branches.terminals node).filter (fun m => m.kind ≠ .exact || path.isEmpty) ++
    match path with
    | [] => []
    | byte :: path =>
      match branches.child? node byte with
      | some target => branches.along target path
      | none => []

end Branches

structure PatternTrie where
  forward : Branches
  backward : Branches
  size : Nat
  deriving Repr

namespace PatternTrie

def empty : PatternTrie := ⟨.empty, .empty, 0⟩

def isEmpty (trie : PatternTrie) : Bool := trie.size = 0

def insert (trie : PatternTrie) (pattern : Pattern) : PatternTrie :=
  let path := nameKey pattern.literal
  let m := Match.ofPattern pattern
  let trie := { trie with size := trie.size + 1 }
  match pattern.kind with
  | .trailing => { trie with backward := trie.backward.insert path.reverse m }
  | _ => { trie with forward := trie.forward.insert path m }

def ofPatterns (patterns : List Pattern) : PatternTrie := patterns.foldl insert empty

/-- Every pattern that matches `name`: exact and leading ones from the shortest literal to the
longest, then trailing ones from the shortest to the longest. -/
def lookup (trie : PatternTrie) (name : String) : List Match :=
  trie.forward.along 0 (nameKey name) ++ trie.backward.along 0 (nameKey name).reverse

/-- The later of two matches, unless the earlier has more weight. -/
def heavier (best : Option Match) (m : Match) : Option Match :=
  match best with
  | some held => if held.weight ≤ m.weight then some m else some held
  | none => some m

/-- The most specific match; of equally specific ones an excluding one. -/
def best? (trie : PatternTrie) (name : String) : Option Match :=
  (trie.lookup name).foldl heavier none

end PatternTrie

end ClassSieve
