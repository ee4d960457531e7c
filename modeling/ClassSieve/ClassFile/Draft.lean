import ClassSieve.ClassFile.ElementValue
import ClassSieve.ClassFile.Outline
import ClassSieve.ClassFile.PoolDraft

/-!
# Drafting class files

A draft is an outline to be written as a class file, with some more content that an outline does
not show: the name of the source file, constants of every kind, code for the methods that have
some, an attribute on each field, and values of every kind in each annotation. Names are written
as they are given.
-/
namespace ClassSieve.ClassFile

structure Draft where
  outline : Outline
  sourceFile : Option String
  everyConstant : Bool
  deriving DecidableEq, Repr

namespace Draft

def ofName (name : String) : Draft where
  outline := {
    header := {
      minor := 0, major := 52, access := ⟨0x21⟩, name, superName := some rootClass,
      interfaces := [] }
    fields := [], methods := [], annotations := [] }
  sourceFile := none
  everyConstant := false

def encodeCount {α : Type} (items : List α) : Bytes := encodeU2 (UInt16.ofNat items.length)

def writeCounted {α : Type} (write : α → PoolWriter Bytes) (items : List α) :
    PoolWriter Bytes := do
  return encodeCount items ++ (← items.mapM write).flatten

def writeAttribute (name : String) (body : Bytes) : PoolWriter Bytes := do
  return encodeU2 (← PoolWriter.text name) ++ encodeU4 (UInt32.ofNat body.length) ++ body

def sampleValues : PoolWriter (List (UInt16 × ElementValue)) := do
  let value ← PoolWriter.text "value"
  let hello ← PoolWriter.text "hello"
  let flags ← PoolWriter.text "flags"
  let one ← PoolWriter.integer 1
  let two ← PoolWriter.integer 2
  let nested ← PoolWriter.text "nested"
  let deprecated ← PoolWriter.text "Ljava/lang/Deprecated;"
  let kind ← PoolWriter.text "kind"
  let elementType ← PoolWriter.text "Ljava/lang/annotation/ElementType;"
  let typeName ← PoolWriter.text "TYPE"
  return [(value, .constant 0x73 hello),
    (flags, .array [.constant 0x49 one, .constant 0x49 two]),
    (nested, .nested deprecated []),
    (kind, .enumConstant elementType typeName)]

def writeAnnotationEntry (name : String) : PoolWriter Bytes := do
  let type ← PoolWriter.text ("L" ++ name ++ ";")
  let values ← sampleValues
  return encodeU2 type ++ encodeCount values ++ ElementValue.encodePairs values

def writeHeader (header : Header) : PoolWriter Bytes := do
  let this ← PoolWriter.classRef header.name
  let super ← match header.superName with
    | some name => PoolWriter.classRef name
    | none => pure 0
  let interfaces ← writeCounted (fun name => return encodeU2 (← PoolWriter.classRef name))
    header.interfaces
  return encodeU2 header.access.bits ++ encodeU2 this ++ encodeU2 super ++ interfaces

def writeMember (access : AccessFlags) (name descriptor : String) : PoolWriter Bytes := do
  let nameIndex ← PoolWriter.text name
  let descriptorIndex ← PoolWriter.text descriptor
  return encodeU2 access.bits ++ encodeU2 nameIndex ++ encodeU2 descriptorIndex

def writeField (field : Field) : PoolWriter Bytes := do
  let member ← writeMember field.access field.name field.descriptor
  let marker ← writeAttribute "Deprecated" []
  return member ++ encodeU2 1 ++ marker

def sampleCode : Bytes :=
  encodeU2 2 ++ encodeU2 2 ++ encodeU4 5 ++ [0x2A, 0xB7, 0x00, 0x01, 0xB1] ++ encodeU2 0
    ++ encodeU2 0

/-- The attributes of a method: code unless it is abstract or native, then annotations. -/
def writeMethod (method : Method) : PoolWriter Bytes := do
  let member ← writeMember method.access method.name method.descriptor
  let code ←
    if method.access.has .abstractFlag || method.access.has .nativeFlag then pure []
    else pure [← writeAttribute "Code" sampleCode]
  let annotations ←
    if method.annotations.isEmpty then pure []
    else
      let table ← writeCounted writeAnnotationEntry method.annotations
      pure [← writeAttribute "RuntimeVisibleAnnotations" table]
  let attributes := code ++ annotations
  return member ++ encodeCount attributes ++ attributes.flatten

def writeClassAttributes (draft : Draft) : PoolWriter Bytes := do
  let source ← match draft.sourceFile with
    | some name => pure [("SourceFile", encodeU2 (← PoolWriter.text name))]
    | none => pure []
  let annotations ←
    if draft.outline.annotations.isEmpty then pure []
    else
      let table ← writeCounted writeAnnotationEntry draft.outline.annotations
      pure [("RuntimeVisibleAnnotations", table)]
  writeCounted (fun item => writeAttribute item.1 item.2) (source ++ annotations)

def writeBody (draft : Draft) : PoolWriter Bytes := do
  if draft.everyConstant then PoolWriter.everyKind draft.outline.header.major
  let header ← writeHeader draft.outline.header
  let fields ← writeCounted writeField draft.outline.fields
  let methods ← writeCounted writeMethod draft.outline.methods
  let attributes ← draft.writeClassAttributes
  return header ++ fields ++ methods ++ attributes

def encode (draft : Draft) : Bytes :=
  let (body, pool) := draft.writeBody.run PoolDraft.empty
  encodeU4 magic ++ encodeU2 draft.outline.header.minor ++ encodeU2 draft.outline.header.major
    ++ pool.encode ++ body

end Draft

end ClassSieve.ClassFile
