import ClassSieve.ClassFile.Word

/-!
# Element values

The values of an annotation as a tree, and the bytes that write it. `depth` counts the levels
below the value itself.
-/
namespace ClassSieve.ClassFile

inductive ElementValue where
  /-- A number, a text or a class, by an index into the pool. -/
  | constant (tag : UInt8) (index : UInt16)
  | enumConstant (typeIndex nameIndex : UInt16)
  | nested (typeIndex : UInt16) (pairs : List (UInt16 × ElementValue))
  | array (items : List ElementValue)

namespace ElementValue

mutual

def encode : ElementValue → Bytes
  | constant tag index => tag :: encodeU2 index
  | enumConstant typeIndex nameIndex => 0x65 :: encodeU2 typeIndex ++ encodeU2 nameIndex
  | nested typeIndex pairs =>
    0x40 :: encodeU2 typeIndex ++ encodeU2 (UInt16.ofNat pairs.length) ++ encodePairs pairs
  | array items => 0x5B :: encodeU2 (UInt16.ofNat items.length) ++ encodeItems items

def encodePairs : List (UInt16 × ElementValue) → Bytes
  | [] => []
  | (name, value) :: rest => encodeU2 name ++ value.encode ++ encodePairs rest

def encodeItems : List ElementValue → Bytes
  | [] => []
  | value :: rest => value.encode ++ encodeItems rest

end

mutual

def depth : ElementValue → Nat
  | constant .. => 0
  | enumConstant .. => 0
  | nested _ pairs => depthOfPairs pairs
  | array items => depthOfItems items

def depthOfPairs : List (UInt16 × ElementValue) → Nat
  | [] => 0
  | (_, value) :: rest => max (value.depth + 1) (depthOfPairs rest)

def depthOfItems : List ElementValue → Nat
  | [] => 0
  | value :: rest => max (value.depth + 1) (depthOfItems rest)

end

end ElementValue

end ClassSieve.ClassFile
