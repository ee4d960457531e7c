/-!
# Globs

The patterns of ignore files, which are matched against the bytes of a path. `?` stands for one
byte and `*` for a run of them, neither for a slash; `[a-z]` and `[!a-z]` stand for one byte of a
set. `**/` at the beginning, `/**/` inside and `/**` at the end stand for any directories, and a
comma separates the branches of a group in braces. A backslash takes the next character as it is.

`leftovers` says which rests of a path may remain behind a match, so a glob matches a path when
nothing is one of them.
-/
namespace ClassSieve.Ignore

inductive GlobPiece where
  | literal (c : Char)
  | oneByte
  | run
  | byteOf (negated : Bool) (ranges : List (UInt8 × UInt8))
  /-- `**/` at the beginning. -/
  | leadingDirectories
  /-- `/**/` between other pieces. -/
  | innerDirectories
  /-- `/**` at the end. -/
  | everythingBelow
  | oneOf (branches : List (List GlobPiece))

abbrev Glob := List GlobPiece

/-! ## Sets of bytes -/

/-- The bytes of a range of characters: those before the last of `low` and behind the first of
`high` stand for themselves. -/
def byteRanges (low high : Char) : List (UInt8 × UInt8) :=
  let single (b : UInt8) := (b, b)
  let first := String.utf8EncodeChar low
  let last := String.utf8EncodeChar high
  if low = high then first.map single
  else
    match first.getLast?, last with
    | some b, c :: rest => first.dropLast.map single ++ (b, c) :: rest.map single
    | _, _ => []

inductive SetReading where
  | closed (ranges : List (Char × Char)) (length : Nat)
  | unclosed
  | backwards

/-- Reads a set behind its opening. The ranges read so far are given last first; the first
character of a set stands for itself, and `dash` tells of a dash that waits for the end of a
range. -/
def readSet (first dash : Bool) (ranges : List (Char × Char)) (length : Nat) :
    List Char → SetReading
  | [] => .unclosed
  | c :: rest =>
    if c = ']' && !first then
      .closed (if dash then ('-', '-') :: ranges else ranges) (length + 1)
    else if c = '-' && !first && !dash then readSet false true ranges (length + 1) rest
    else
      match dash, ranges with
      | true, (low, _) :: others =>
        if c < low then .backwards
        else readSet false false ((low, c) :: others) (length + 1) rest
      | _, _ => readSet false false ((c, c) :: ranges) (length + 1) rest

/-! ## Reading globs -/

structure OpenGroup where
  branches : List Glob
  outer : List GlobPiece

structure GlobReading where
  current : List GlobPiece
  groups : List OpenGroup
  bracketsLiteral : Bool

namespace GlobReading

def initial : GlobReading := ⟨[], [], false⟩

def push (reading : GlobReading) (piece : GlobPiece) : GlobReading :=
  { reading with current := piece :: reading.current }

def openGroup (reading : GlobReading) : GlobReading :=
  { reading with current := [], groups := ⟨[], reading.current⟩ :: reading.groups }

def comma (reading : GlobReading) : GlobReading :=
  match reading.groups with
  | [] => reading.push (.literal ',')
  | group :: groups =>
    let branches := reading.current.reverse :: group.branches
    { reading with current := [], groups := { group with branches } :: groups }

def closeGroup? (reading : GlobReading) : Option GlobReading :=
  match reading.groups with
  | [] => none
  | group :: groups =>
    let all := (reading.current.reverse :: group.branches).reverse
    let branches := all.filter fun branch => !branch.isEmpty
    let closed := { reading with current := group.outer, groups }
    some (if branches.isEmpty then closed else closed.push (.oneOf branches))

def pushDirectories (reading : GlobReading) (piece : GlobPiece) : GlobReading :=
  match reading.current with
  | .leadingDirectories :: _ | .everythingBelow :: _ => reading
  | _ => { reading with current := piece :: reading.current.drop 1 }

/-- Reads a star before `rest` and behind the character `previous`; also says how much of `rest`
belongs to it. Two stars that are no whole piece of the path are a run. -/
def star (reading : GlobReading) (previous : Option Char) (rest : List Char) : GlobReading × Nat :=
  match rest with
  | '*' :: behind =>
    let inGroup := !reading.groups.isEmpty
    if reading.current.isEmpty then
      match behind with
      | [] | '/' :: _ => (reading.push .leadingDirectories, 2)
      | _ => (reading.push .run, 1)
    else if previous ≠ some '/' && !(inGroup && (previous = some ',' || previous = some '{')) then
      (reading.push .run, 1)
    else
      match behind with
      | [] => (reading.pushDirectories .everythingBelow, 1)
      | '/' :: _ => (reading.pushDirectories .innerDirectories, 2)
      | c :: _ =>
        if inGroup && (c = ',' || c = '}') then (reading.pushDirectories .everythingBelow, 1)
        else (reading.push .run, 1)
  | _ => (reading.push .run, 0)

def set? (reading : GlobReading) (rest : List Char) : Option (GlobReading × Nat) :=
  let negated := rest.head? = some '!' || rest.head? = some '^'
  let mark := if negated then 1 else 0
  match readSet true false [] 0 (rest.drop mark) with
  | .closed ranges length =>
    let bytes := ranges.flatMap fun range => byteRanges range.1 range.2
    some (reading.push (.byteOf negated bytes), mark + length)
  | .unclosed => some ({ reading with bracketsLiteral := true }.push (.literal '['), 0)
  | .backwards => none

def step? (reading : GlobReading) (previous : Option Char) (c : Char) (rest : List Char) :
    Option (GlobReading × Nat) :=
  match c with
  | '?' => some (reading.push .oneByte, 0)
  | '*' => some (reading.star previous rest)
  | '[' =>
    if reading.bracketsLiteral then some (reading.push (.literal '['), 0) else reading.set? rest
  | '\x7b' => some (reading.openGroup, 0)
  | '\x7d' => reading.closeGroup?.map fun closed => (closed, 0)
  | ',' => some (reading.comma, 0)
  | '\\' => rest.head?.map fun escaped => (reading.push (.literal escaped), 1)
  | _ => some (reading.push (.literal c), 0)

def read? (reading : GlobReading) (previous : Option Char) (skip : Nat) :
    List Char → Option GlobReading
  | [] => some reading
  | c :: rest =>
    match skip with
    | skip + 1 => reading.read? (some c) skip rest
    | 0 =>
      match reading.step? previous c rest with
      | some (next, skip) => next.read? (some c) skip rest
      | none => none

end GlobReading

def Glob.parse? (text : List Char) : Option Glob := do
  let reading ← GlobReading.initial.read? none 0 text
  if reading.groups.isEmpty then some reading.current.reverse else none

/-! ## Matching -/

abbrev PathBytes := List UInt8

def slash : UInt8 := 0x2F

def afterRun : PathBytes → List PathBytes
  | [] => [[]]
  | b :: rest => (b :: rest) :: if b = slash then [] else afterRun rest

def afterSlashes : PathBytes → List PathBytes
  | [] => []
  | b :: rest => if b = slash then rest :: afterSlashes rest else afterSlashes rest

def allRests : PathBytes → List PathBytes
  | [] => [[]]
  | b :: rest => (b :: rest) :: allRests rest

def behindSlash? : PathBytes → Option PathBytes
  | [] => none
  | b :: rest => if b = slash then some rest else none

def behindByte (p : UInt8 → Bool) : PathBytes → List PathBytes
  | [] => []
  | b :: rest => if p b then [rest] else []

mutual

def GlobPiece.leftovers (path : PathBytes) : GlobPiece → List PathBytes
  | .literal c => ((String.utf8EncodeChar c).isPrefixOf? path).toList
  | .oneByte => behindByte (· ≠ slash) path
  | .run => afterRun path
  | .byteOf negated ranges =>
    behindByte (fun b => (ranges.any fun range => range.1 ≤ b && b ≤ range.2) ≠ negated) path
  | .leadingDirectories => path :: afterSlashes path
  | .innerDirectories => (behindSlash? path).toList.flatMap fun rest => rest :: afterSlashes rest
  | .everythingBelow => (behindSlash? path).toList.flatMap allRests
  | .oneOf branches => branchLeftovers path branches

def leftovers (paths : List PathBytes) : Glob → List PathBytes
  | [] => paths
  | piece :: rest => leftovers (paths.flatMap fun path => piece.leftovers path).eraseDups rest

def branchLeftovers (path : PathBytes) : List Glob → List PathBytes
  | [] => []
  | branch :: rest => leftovers [path] branch ++ branchLeftovers path rest

end

namespace Glob

def isMatch (glob : Glob) (path : String) : Bool :=
  match glob with
  | [.leadingDirectories] => true
  | _ => (leftovers [path.toUTF8.toList] glob).contains []

end Glob

end ClassSieve.Ignore
