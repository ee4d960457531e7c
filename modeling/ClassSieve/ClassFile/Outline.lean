import ClassSieve.ClassFile.AnnotationTable
import ClassSieve.ClassFile.Header
import ClassSieve.Descriptor

/-!
# Class outlines

A header together with the fields, the methods and the recorded annotations of a class. Attributes
are skipped by their length. Only a reader with annotations of interest looks at the names of
attributes, on methods and on the class, and reads the tables of visible annotations.
-/
namespace ClassSieve.ClassFile

structure Field where
  access : AccessFlags
  name : String
  descriptor : String
  deriving DecidableEq, Repr

structure Method where
  access : AccessFlags
  name : String
  descriptor : String
  annotations : List String
  deriving DecidableEq, Repr

namespace Method

def parameters (method : Method) : List String := Descriptor.parameters method.descriptor
def returnType? (method : Method) : Option String := Descriptor.returnType? method.descriptor

end Method

structure Outline where
  header : Header
  fields : List Field
  methods : List Method
  annotations : List String
  deriving DecidableEq, Repr

inductive ClassInfo where
  | header (header : Header)
  | outline (outline : Outline)
  deriving DecidableEq, Repr

namespace ClassInfo

def getHeader : ClassInfo → Header
  | header h => h
  | outline o => o.header

def outline? : ClassInfo → Option Outline
  | header _ => none
  | outline o => some o

end ClassInfo

def visibleAnnotations : String := "RuntimeVisibleAnnotations"

namespace Outline
open ClassFile.Parser

def field? (outline : Outline) (name : String) : Option Field :=
  outline.fields.find? fun field => field.name = name

def methodsNamed (outline : Outline) (name : String) : List Method :=
  outline.methods.filter fun method => method.name = name

def readAttribute (pool : Pool) (interest : Interest) : Parser (List String) := do
  let offset ← position
  let nameIndex ← u2
  let length ← u4
  let body ← carve length.toNat
  if interest.isEmpty then return []
  else
    let (_, name) ← pool.rawText nameIndex offset
    if name = asciiBytes visibleAnnotations then within body (AnnotationTable.read pool interest)
    else return []

def readAttributes (pool : Pool) (interest : Interest) : Parser (List String) := do
  let found ← counted (readAttribute pool interest)
  return found.flatten

def readText (pool : Pool) : Parser String := do
  let offset ← position
  let index ← u2
  pool.text index offset

def readField (pool : Pool) : Parser Field := do
  let access ← u2
  let name ← readText pool
  let descriptor ← readText pool
  let _ ← readAttributes pool Interest.empty
  return { access := ⟨access⟩, name, descriptor }

def readMethod (pool : Pool) (interest : Interest) : Parser Method := do
  let access ← u2
  let name ← readText pool
  let descriptor ← readText pool
  let annotations ← readAttributes pool interest
  return { access := ⟨access⟩, name, descriptor, annotations }

def read (pool : Pool) (header : Header) (interest : Interest) : Parser Outline := do
  let fields ← counted (readField pool)
  let methods ← counted (readMethod pool interest)
  let annotations ← readAttributes pool interest
  return { header, fields, methods, annotations }

end Outline

/-- The outline of a class file, with the annotations of interest; what follows the last
attribute is not looked at. -/
def parseOutline (bytes : Bytes) (interest : Interest) : Except Fault Outline := do
  let ((pool, header), cursor) ← Header.read (Cursor.ofBytes bytes)
  let (outline, _) ← Outline.read pool header interest cursor
  return outline

end ClassSieve.ClassFile
