import ClassSieve.Archive.Huffman

/-!
# Inflating

Reads data in the DEFLATE format: blocks that are stored, or that hold literal bytes and copies of
earlier output under Huffman codes, either fixed ones or codes that the block itself describes.
What follows the last block is not looked at.
-/
namespace ClassSieve.Archive.Inflate

structure Stream where
  bytes : Array UInt8
  pos : Nat
  out : Array UInt8

abbrev Inflater := StateT Stream Option

def bit : Inflater Bool := fun s =>
  match s.bytes[s.pos / 8]? with
  | some b => some (b.toNat / Nat.pow 2 (s.pos % 8) % 2 = 1, { s with pos := s.pos + 1 })
  | none => none

def bits (n : Nat) : Inflater Nat :=
  match n with
  | 0 => return 0
  | n + 1 => do
    let low ← bit
    let high ← bits n
    return 2 * high + low.toNat

def emit (b : UInt8) : Inflater Unit := modify fun s => { s with out := s.out.push b }

/-- Repeats `length` bytes from `distance` back; what stands before all output is zero. -/
def copy (length distance : Nat) : Inflater Unit :=
  match length with
  | 0 => return
  | length + 1 => do
    modify fun s =>
      let b := if distance ≤ s.out.size then s.out.getD (s.out.size - distance) 0 else 0
      { s with out := s.out.push b }
    copy length distance

def decode : Huffman → Inflater Nat
  | .unused => failure
  | .leaf symbol => return symbol
  | .node zero one => do if ← bit then decode one else decode zero

/-- The shortest length and the number of extra bits of each length symbol from 257 on. -/
def lengthCodes : List (Nat × Nat) :=
  [(3, 0), (4, 0), (5, 0), (6, 0), (7, 0), (8, 0), (9, 0), (10, 0), (11, 1), (13, 1), (15, 1),
    (17, 1), (19, 2), (23, 2), (27, 2), (31, 2), (35, 3), (43, 3), (51, 3), (59, 3), (67, 4),
    (83, 4), (99, 4), (115, 4), (131, 5), (163, 5), (195, 5), (227, 5), (258, 0)]

/-- The shortest distance and the number of extra bits of each distance symbol. -/
def distanceCodes : List (Nat × Nat) :=
  [(1, 0), (2, 0), (3, 0), (4, 0), (5, 1), (7, 1), (9, 2), (13, 2), (17, 3), (25, 3), (33, 4),
    (49, 4), (65, 5), (97, 5), (129, 6), (193, 6), (257, 7), (385, 7), (513, 8), (769, 8),
    (1025, 9), (1537, 9), (2049, 10), (3073, 10), (4097, 11), (6145, 11), (8193, 12), (12289, 12),
    (16385, 13), (24577, 13)]

def extended (codes : List (Nat × Nat)) (symbol : Nat) : Inflater Nat := do
  match codes[symbol]? with
  | some (base, extra) => return base + (← bits extra)
  | none => failure

def contents (fuel : Nat) (literals distances : Huffman) : Inflater Unit :=
  match fuel with
  | 0 => failure
  | fuel + 1 => do
    let symbol ← decode literals
    if symbol < 256 then
      emit (UInt8.ofNat symbol)
      contents fuel literals distances
    else if symbol = 256 then return
    else
      let length ← extended lengthCodes (symbol - 257)
      let distance ← extended distanceCodes (← decode distances)
      copy length distance
      contents fuel literals distances

def stored : Inflater Unit := do
  modify fun s => { s with pos := (s.pos + 7) / 8 * 8 }
  let length ← bits 16
  let inverse ← bits 16
  if length + inverse ≠ 0xFFFF then failure
  let s ← get
  let start := s.pos / 8
  if s.bytes.size < start + length then failure
  set { s with
    pos := s.pos + 8 * length
    out := s.out ++ s.bytes.extract start (start + length) }

def fixedLiterals : List Nat :=
  List.replicate 144 8 ++ List.replicate 112 9 ++ List.replicate 24 7 ++ List.replicate 8 8

def fixedDistances : List Nat := List.replicate 32 5

/-- The order in which the lengths of the code for code lengths are written. -/
def lengthOrder : List Nat := [16, 17, 18, 0, 8, 7, 9, 6, 10, 5, 11, 4, 12, 3, 13, 2, 14, 1, 15]

def codeLengths (fuel total : Nat) (code : Huffman) (read : Array Nat) : Inflater (Array Nat) :=
  match fuel with
  | 0 => failure
  | fuel + 1 => do
    if read.size = total then return read
    else if total < read.size then failure
    else
      let symbol ← decode code
      if symbol < 16 then codeLengths fuel total code (read.push symbol)
      else
        let (length, count) ←
          if symbol = 16 then
            match read.back? with
            | some length => pure (length, 3 + (← bits 2))
            | none => failure
          else if symbol = 17 then pure (0, 3 + (← bits 3))
          else pure (0, 11 + (← bits 7))
        codeLengths fuel total code (read ++ Array.replicate count length)

def readLengths (n : Nat) : Inflater (List Nat) :=
  match n with
  | 0 => return []
  | n + 1 => return (← bits 3) :: (← readLengths n)

def describedCodes : Inflater (Huffman × Huffman) := do
  let literalCount := 257 + (← bits 5)
  let distanceCount := 1 + (← bits 5)
  let lengthCount := 4 + (← bits 4)
  if 286 < literalCount || 30 < distanceCount then failure
  let written := lengthOrder.zip (← readLengths lengthCount)
  let code ← Huffman.ofLengths? ((List.range 19).map fun i => (written.lookup i).getD 0)
  let total := literalCount + distanceCount
  let lengths := (← codeLengths (total + 1) total code #[]).toList
  let literals ← Huffman.ofLengths? (lengths.take literalCount)
  let distances ← Huffman.ofLengths? (lengths.drop literalCount)
  return (literals, distances)

/-- Blocks up to one that says it is the last. `fuel` exceeds the number of bits. -/
def blocks (fuel : Nat) : Inflater Unit :=
  match fuel with
  | 0 => failure
  | fuel + 1 => do
    let last ← bit
    let kind ← bits 2
    if kind = 0 then stored
    else if kind = 1 then
      let literals ← Huffman.ofLengths? fixedLiterals
      let distances ← Huffman.ofLengths? fixedDistances
      contents fuel literals distances
    else if kind = 2 then
      let (literals, distances) ← describedCodes
      contents fuel literals distances
    else failure
    if last then return else blocks fuel

def inflate? (bytes : Array UInt8) : Option (Array UInt8) :=
  if bytes.isEmpty then some #[]
  else (blocks (8 * bytes.size + 1) ⟨bytes, 0, #[]⟩).map fun result => result.2.out

end ClassSieve.Archive.Inflate
