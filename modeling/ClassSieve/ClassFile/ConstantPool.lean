import ClassSieve.ClassFile.Cursor
import ClassSieve.Text.ModifiedUtf8

/-!
# The constant pool

The table at the head of a class file that other structures refer to by index. Index 0 names no
entry, and an entry that holds a long or a double takes two indices, of which the second names
nothing. Only texts and classes are kept; of any other entry its tag is enough. A text keeps its
bytes and their offset, and is decoded when something refers to it.
-/
namespace ClassSieve.ClassFile

inductive Slot where
  | vacant
  | text (offset : Nat) (raw : Bytes)
  | classRef (nameIndex : UInt16)
  | other (tag : UInt8)
  deriving DecidableEq, Repr

def textTag : UInt8 := 1
def classTag : UInt8 := 7

def Slot.tag : Slot → UInt8
  | vacant => 0
  | text .. => textTag
  | classRef .. => classTag
  | other tag => tag

structure TagLayout where
  /-- The bytes of the body; a text has none, since its length stands in front of it. -/
  width : Option Nat
  wide : Bool
  since : UInt16

def tagLayout? (tag : UInt8) : Option TagLayout :=
  match tag.toNat with
  | 1 => some ⟨none, false, 45⟩
  | 3 | 4 => some ⟨some 4, false, 45⟩
  | 5 | 6 => some ⟨some 8, true, 45⟩
  | 7 | 8 => some ⟨some 2, false, 45⟩
  | 9 | 10 | 11 | 12 => some ⟨some 4, false, 45⟩
  | 15 => some ⟨some 3, false, 51⟩
  | 16 => some ⟨some 2, false, 51⟩
  | 17 => some ⟨some 4, false, 55⟩
  | 18 => some ⟨some 4, false, 51⟩
  | 19 | 20 => some ⟨some 2, false, 53⟩
  | _ => none

abbrev Pool := Array Slot

namespace Pool
open ClassFile.Parser

def readBody (tag : UInt8) (layout : TagLayout) : Parser Slot := do
  match layout.width with
  | none =>
    let length ← u2
    let offset ← position
    return .text offset (← take length.toNat)
  | some width =>
    if tag = classTag then return .classRef (← u2)
    else
      skip width
      return .other tag

def readEntry (major : UInt16) : Parser (Slot × Bool) := do
  let start ← position
  let tag ← u1
  match tagLayout? tag with
  | none => failAt start (.unknownPoolTag tag)
  | some layout =>
    if major < layout.since then failAt start (.tagNotInVersion tag major)
    else return (← readBody tag layout, layout.wide)

/-- Reads entries behind those of `pool` until `left` more indices are taken. The last index
leaves no room for an entry that takes two. -/
def readEntries (major : UInt16) (left : Nat) (pool : Pool) : Parser Pool :=
  match left with
  | 0 => return pool
  | left + 1 => do
    let start ← position
    let (slot, wide) ← readEntry major
    if wide then
      match left with
      | 0 => failAt start (.poolIndexOutOfRange (pool.size + 1))
      | left + 1 => readEntries major left ((pool.push slot).push .vacant)
    else readEntries major left (pool.push slot)

def read (major : UInt16) : Parser Pool := do
  let count ← u2
  readEntries major (count.toNat - 1) #[.vacant]

def slot (pool : Pool) (index : UInt16) (offset : Nat) : Except Fault Slot :=
  match pool[index.toNat]? with
  | some slot => if index = 0 then .error outOfRange else .ok slot
  | none => .error outOfRange
where
  outOfRange := .malformed offset (.poolIndexOutOfRange index.toNat)

def rawText (pool : Pool) (index : UInt16) (offset : Nat) : Except Fault (Nat × Bytes) := do
  match ← pool.slot index offset with
  | .text start raw => return (start, raw)
  | slot => throw (.malformed offset (.unexpectedPoolTag index.toNat slot.tag))

def decodeText (offset : Nat) (raw : Bytes) : Except Fault String :=
  (Text.ModifiedUtf8.decode raw).mapError fun pos => .malformed (offset + pos) .invalidText

def text (pool : Pool) (index : UInt16) (offset : Nat) : Except Fault String := do
  let (start, raw) ← pool.rawText index offset
  decodeText start raw

def className (pool : Pool) (index : UInt16) (offset : Nat) : Except Fault String := do
  match ← pool.slot index offset with
  | .classRef nameIndex => pool.text nameIndex offset
  | slot => throw (.malformed offset (.unexpectedPoolTag index.toNat slot.tag))

end Pool

end ClassSieve.ClassFile
