import ClassSieve.ClassFile.ConstantPool
import ClassSieve.ClassFile.Interest

/-!
# Annotation tables

A table lists annotations, each with named values. Values are skipped by their structure: a tag
says whether a constant, an enum constant, a class, another annotation or an array follows.
Annotations and arrays nest, and a value below depth 32 is refused before its tag is read.
-/
namespace ClassSieve.ClassFile.AnnotationTable
open ClassFile.Parser

/-- How many levels of values an annotation may hold, its own values included. -/
def levels : Nat := 33

def constantTags : List UInt8 := asciiBytes "BCDFIJSZsc"

def enumTag : UInt8 := 0x65
def nestedTag : UInt8 := 0x40
def arrayTag : UInt8 := 0x5B

def skipValue (levels : Nat) : Parser Unit :=
  match levels with
  | 0 => do failAt (← position) .annotationTooDeep
  | levels + 1 => do
    let start ← position
    let tag ← u1
    if tag ∈ constantTags then skip 2
    else if tag = enumTag then skip 4
    else if tag = nestedTag then
      skip 2
      let count ← u2
      let _ ← times count.toNat (do skip 2; skipValue levels)
    else if tag = arrayTag then
      let count ← u2
      let _ ← times count.toNat (skipValue levels)
    else failAt start (.unknownElementTag tag)

def skipPairs (levels : Nat) : Parser Unit := do
  let _ ← counted (do skip 2; skipValue levels)

def readEntry (pool : Pool) (interest : Interest) : Parser (Option String) := do
  let offset ← position
  let index ← u2
  let (_, raw) ← pool.rawText index offset
  skipPairs levels
  return interest.find? raw

def read (pool : Pool) (interest : Interest) : Parser (List String) := do
  let found ← counted (readEntry pool interest)
  return found.filterMap id

end ClassSieve.ClassFile.AnnotationTable
