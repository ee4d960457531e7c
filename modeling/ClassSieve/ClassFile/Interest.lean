import ClassSieve.ClassName
import ClassSieve.Text.ModifiedUtf8

/-!
# Annotations of interest

The annotation classes that a reader of class files is asked to record, by internal name and each
once. A class file refers to an annotation by its descriptor in modified UTF-8; `find?` compares
names in that form, so a reference is never decoded.
-/
namespace ClassSieve.ClassFile

def annotationKey (name : String) : List UInt8 :=
  Text.ModifiedUtf8.encode ("L" ++ name ++ ";")

structure Interest where
  names : List String
  deriving Repr

namespace Interest

def empty : Interest := ⟨[]⟩

def isEmpty (interest : Interest) : Bool := interest.names.isEmpty
def size (interest : Interest) : Nat := interest.names.length

def contains (interest : Interest) (name : String) : Bool :=
  interest.names.contains (ClassName.toInternal name)

def insert (interest : Interest) (name : String) : Interest :=
  if interest.contains name then interest
  else ⟨interest.names ++ [ClassName.toInternal name]⟩

def insertAll (interest : Interest) (names : List String) : Interest :=
  names.foldl insert interest

def ofNames (names : List String) : Interest := empty.insertAll names

def find? (interest : Interest) (raw : List UInt8) : Option String :=
  interest.names.find? fun name => annotationKey name = raw

end Interest

end ClassSieve.ClassFile
