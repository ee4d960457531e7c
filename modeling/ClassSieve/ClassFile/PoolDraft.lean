import ClassSieve.ClassFile.ConstantPool

/-!
# Writing a constant pool

A draft collects the entries of a pool in order and hands out their indices. A text and a class
are entered once; asking for one again gives the index of the first.
-/
namespace ClassSieve.ClassFile

inductive Constant where
  | text (raw : Bytes)
  | classRef (nameIndex : UInt16)
  | other (tag : UInt8) (body : Bytes) (wide : Bool)
  deriving DecidableEq, Repr

namespace Constant

def encode : Constant → Bytes
  | text raw => 1 :: encodeU2 (UInt16.ofNat raw.length) ++ raw
  | classRef nameIndex => 7 :: encodeU2 nameIndex
  | other tag body _ => tag :: body

def slots : Constant → Nat
  | other _ _ true => 2
  | _ => 1

end Constant

structure PoolDraft where
  constants : Array Constant
  next : Nat
  texts : List (String × UInt16)
  classes : List (String × UInt16)

abbrev PoolWriter := StateM PoolDraft

namespace PoolDraft

def empty : PoolDraft := ⟨#[], 1, [], []⟩

def encode (draft : PoolDraft) : Bytes :=
  encodeU2 (UInt16.ofNat draft.next) ++ draft.constants.toList.flatMap Constant.encode

end PoolDraft

namespace PoolWriter

def push (constant : Constant) : PoolWriter UInt16 := do
  let draft ← get
  set { draft with
    constants := draft.constants.push constant
    next := draft.next + constant.slots }
  return UInt16.ofNat draft.next

def text (s : String) : PoolWriter UInt16 := do
  match (← get).texts.lookup s with
  | some index => return index
  | none =>
    let index ← push (.text (Text.ModifiedUtf8.encode s))
    modify fun draft => { draft with texts := (s, index) :: draft.texts }
    return index

def classRef (name : String) : PoolWriter UInt16 := do
  match (← get).classes.lookup name with
  | some index => return index
  | none =>
    let nameIndex ← text name
    let index ← push (.classRef nameIndex)
    modify fun draft => { draft with classes := (name, index) :: draft.classes }
    return index

def integer (value : UInt32) : PoolWriter UInt16 := push (.other 3 (encodeU4 value) false)

def nameAndType (name descriptor : String) : PoolWriter UInt16 := do
  let nameIndex ← text name
  let descriptorIndex ← text descriptor
  push (.other 12 (encodeU2 nameIndex ++ encodeU2 descriptorIndex) false)

/-- Enters a constant of every kind that files of version `major` may hold. Two of them take two
indices, and one of those stands right before what is entered next. -/
def everyKind (major : UInt16) : PoolWriter Unit := do
  let _ ← push (.other 5 [0x7F, 0xFF, 0xFF, 0xFF, 0xFF, 0xFF, 0xFF, 0xFF] true)
  let _ ← integer 0xFFFFFFF9
  let _ ← push (.other 4 [0x3F, 0xC0, 0, 0] false)
  let _ ← push (.other 6 [0x40, 0x02, 0, 0, 0, 0, 0, 0] true)
  let _ ← push (.other 8 (encodeU2 (← text "constant")) false)
  let owner ← classRef "java/lang/Object"
  let constructor ← nameAndType "<init>" "()V"
  let field ← nameAndType "out" "Ljava/io/PrintStream;"
  let method ← push (.other 10 (encodeU2 owner ++ encodeU2 constructor) false)
  let _ ← push (.other 11 (encodeU2 owner ++ encodeU2 constructor) false)
  let _ ← push (.other 9 (encodeU2 owner ++ encodeU2 field) false)
  if 51 ≤ major then
    let _ ← push (.other 15 (7 :: encodeU2 method) false)
    let _ ← push (.other 16 (encodeU2 (← text "()V")) false)
    let _ ← push (.other 18 (encodeU2 0 ++ encodeU2 constructor) false)
  if 55 ≤ major then
    let _ ← push (.other 17 (encodeU2 0 ++ encodeU2 constructor) false)
  if 53 ≤ major then
    let _ ← push (.other 19 (encodeU2 (← text "java.base")) false)
    let _ ← push (.other 20 (encodeU2 (← text "java/lang")) false)
  let _ ← push (.other 5 [0, 0, 0, 0, 0, 0, 0, 0] true)

end PoolWriter

end ClassSieve.ClassFile
