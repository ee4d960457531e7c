/-!
# Canonical Huffman codes

A code is given by the length of each symbol's code word. Words are dealt out by increasing length
and then by symbol. A code with two or more symbols must leave no bit string unused; one with fewer
may.
-/
namespace ClassSieve.Archive

inductive Huffman where
  | unused
  | leaf (symbol : Nat)
  | node (zero one : Huffman)

namespace Huffman

def longest : Nat := 15

def insert (tree : Huffman) (symbol : Nat) : List Bool → Huffman
  | [] => .leaf symbol
  | bit :: word =>
    let (zero, one) := match tree with
      | .node zero one => (zero, one)
      | _ => (.unused, .unused)
    if bit then .node zero (one.insert symbol word) else .node (zero.insert symbol word) one

/-- The lowest `length` bits of `code`, the highest first. -/
def wordOf (length code : Nat) : List Bool :=
  (List.range length).reverse.map fun i => code / Nat.pow 2 i % 2 = 1

def symbolsOf (lengths : List Nat) (length : Nat) : List Nat :=
  (lengths.zipIdx.filter fun entry => entry.1 = length).map Prod.snd

def dealWords (length : Nat) : List Nat → Huffman × Nat → Huffman × Nat
  | [], dealt => dealt
  | symbol :: rest, (tree, code) =>
    dealWords length rest (tree.insert symbol (wordOf length code), code + 1)

def ofLengths? (lengths : List Nat) : Option Huffman :=
  let used := lengths.filter (0 < ·)
  let filled := (used.map fun length => Nat.pow 2 (longest - length)).foldr (· + ·) 0
  if 1 < used.length ∧ filled ≠ Nat.pow 2 longest then none
  else
    let dealt := (List.range longest).foldl
      (fun (tree, code) i => dealWords (i + 1) (symbolsOf lengths (i + 1)) (tree, 2 * code))
      (.unused, 0)
    some dealt.1

end Huffman

end ClassSieve.Archive
