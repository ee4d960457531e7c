/-!
# Faults of a class file

Why bytes are no class file, and where. A file newer than every known version is told apart from a
malformed one, because its structure is not judged.
-/
namespace ClassSieve.ClassFile

inductive Cause where
  | truncated
  | badMagic
  | invalidVersion (major : UInt16)
  | unknownPoolTag (tag : UInt8)
  | tagNotInVersion (tag : UInt8) (major : UInt16)
  | poolIndexOutOfRange (index : Nat)
  | unexpectedPoolTag (index : Nat) (tag : UInt8)
  | missingSuperClass
  | invalidText
  | lengthMismatch
  | annotationTooDeep
  | unknownElementTag (tag : UInt8)
  deriving DecidableEq, Repr

inductive Fault where
  | malformed (offset : Nat) (cause : Cause)
  | unsupportedVersion (major minor : UInt16)
  deriving DecidableEq, Repr

def oldestMajor : UInt16 := 45
def newestMajor : UInt16 := 69

def hexByte (b : UInt8) : String :=
  String.ofList ['0', 'x', Nat.digitChar (b.toNat / 16), Nat.digitChar (b.toNat % 16)]

def Cause.message : Cause → String
  | truncated => "input ends before the structure is complete"
  | badMagic => "bad magic number"
  | invalidVersion major => "invalid major version " ++ toString major.toNat
  | unknownPoolTag tag => "unknown constant pool tag " ++ toString tag.toNat
  | tagNotInVersion tag major =>
    "constant pool tag " ++ toString tag.toNat ++ " is not allowed in version "
      ++ toString major.toNat
  | poolIndexOutOfRange index => "constant pool index " ++ toString index ++ " out of range"
  | unexpectedPoolTag index tag =>
    "constant pool entry " ++ toString index ++ " has unexpected tag " ++ toString tag.toNat
  | missingSuperClass => "missing super class"
  | invalidText => "invalid modified UTF-8"
  | lengthMismatch => "contents overrun their declared length"
  | annotationTooDeep => "annotation values nested too deeply"
  | unknownElementTag tag => "unknown annotation element tag " ++ hexByte tag

def Fault.message : Fault → String
  | malformed offset cause =>
    "malformed class-file at offset " ++ toString offset ++ ": " ++ cause.message
  | unsupportedVersion major minor =>
    "unsupported class-file version " ++ toString major.toNat ++ "." ++ toString minor.toNat
      ++ " (newest understood is " ++ toString newestMajor.toNat ++ ")"

end ClassSieve.ClassFile
