import ClassSieve.Access
import ClassSieve.ClassFile.ConstantPool

/-!
# Class headers

The front part of a class file: version, access flags, and the names of the class, of its super
class and of its interfaces. Only `java/lang/Object` and modules may lack a super class. Reading
a header leaves the parser before the fields, with the pool at hand.
-/
namespace ClassSieve.ClassFile

structure Header where
  minor : UInt16
  major : UInt16
  access : AccessFlags
  name : String
  superName : Option String
  interfaces : List String
  deriving DecidableEq, Repr

def magic : UInt32 := 0xCAFEBABE

def rootClass : String := "java/lang/Object"

namespace Header
open ClassFile.Parser

def implements (header : Header) (name : String) : Bool := header.interfaces.contains name

def readVersion : Parser (UInt16 × UInt16) := do
  let start ← position
  let number ← u4
  if number ≠ magic then failAt start .badMagic
  else
    let minor ← u2
    let offset ← position
    let major ← u2
    if newestMajor < major then throw (.unsupportedVersion major minor)
    else if major < oldestMajor then failAt offset (.invalidVersion major)
    else return (minor, major)

def readClassName (pool : Pool) : Parser String := do
  let offset ← position
  let index ← u2
  pool.className index offset

/-- The name of the super class; index 0 stands for none, where that is allowed. -/
def readSuperName (pool : Pool) (access : AccessFlags) (name : String) :
    Parser (Option String) := do
  let offset ← position
  let index ← u2
  if index = 0 then
    if name = rootClass || access.isModule then return none
    else failAt offset .missingSuperClass
  else return some (← pool.className index offset)

def read : Parser (Pool × Header) := do
  let (minor, major) ← readVersion
  let pool ← Pool.read major
  let access ← u2
  let name ← readClassName pool
  let superName ← readSuperName pool ⟨access⟩ name
  let interfaces ← counted (readClassName pool)
  return (pool, { minor, major, access := ⟨access⟩, name, superName, interfaces })

end Header

def parseHeader (bytes : Bytes) : Except Fault Header :=
  (Header.read (Cursor.ofBytes bytes)).map fun result => result.1.2

end ClassSieve.ClassFile
