import ClassSieve.Archive.Directory
import ClassSieve.Archive.Inflate
import ClassSieve.ClassName

/-!
# Class archives

The class files of a zip archive, in the order of its directory. Entries are stored or deflated.
Every entry must be of a kind that could be read, also one that holds no class; only the contents
of classes are read, and they must have the recorded checksum, which is CRC-32: the remainder of the
contents by the polynomial `0xEDB88320` with its bits in reverse, started from and finished by
inverting all bits.
-/
namespace ClassSieve.Archive

namespace Crc32

def shiftBits (n : Nat) (crc : UInt32) : UInt32 :=
  match n with
  | 0 => crc
  | n + 1 => shiftBits n (if crc &&& 1 = 1 then (crc >>> 1) ^^^ 0xEDB88320 else crc >>> 1)

def addByte (crc : UInt32) (b : UInt8) : UInt32 := shiftBits 8 (crc ^^^ b.toUInt32)

def checksum (message : Array UInt8) : UInt32 :=
  ~~~(message.foldl addByte 0xFFFFFFFF)

end Crc32

structure ArchivedClass where
  entry : String
  className : String
  release : Option Nat
  bytes : List UInt8
  deriving DecidableEq, Repr

inductive ArchiveFault where
  | notAnArchive
  | encrypted
  | unsupportedMethod
  | invalidLocalHeader
  | cutShort
  | unreadable (name : String)
  deriving DecidableEq, Repr

def ArchiveFault.message (path : String) : ArchiveFault → String
  | notAnArchive => "Failed to read zip(jar): " ++ path
  | encrypted => "unsupported Zip archive: Password required to decrypt file"
  | unsupportedMethod => "unsupported Zip archive: Compression method not supported"
  | invalidLocalHeader => "invalid Zip archive: Invalid local file header"
  | cutShort => "failed to fill whole buffer"
  | unreadable name => "Failed to read " ++ name ++ " in " ++ path

def missingMessage (path : String) : String := "Failed to open jar: " ++ path

def storedMethod : Nat := 0
def deflatedMethod : Nat := 8

def contentStart (data : Data) (entry : EntryRecord) : Except ArchiveFault Nat :=
  match data.number? entry.start 4 with
  | none => .error .cutShort
  | some mark =>
    if mark ≠ 0x04034B50 then .error .invalidLocalHeader
    else
      match data.number? (entry.start + 26) 2, data.number? (entry.start + 28) 2 with
      | some nameLength, some extraLength => .ok (entry.start + 30 + nameLength + extraLength)
      | _, _ => .error .cutShort

def openEntry (data : Data) (entry : EntryRecord) : Except ArchiveFault Nat := do
  if entry.isEncrypted then throw .encrypted
  let start ← contentStart data entry
  if entry.method ≠ storedMethod ∧ entry.method ≠ deflatedMethod then throw .unsupportedMethod
  return start

def contents? (data : Data) (entry : EntryRecord) (start : Nat) : Option (List UInt8) := do
  let raw := data.extract start (start + entry.compressedSize)
  let content ← if entry.method = storedMethod then some raw else Inflate.inflate? raw
  if (Crc32.checksum content).toNat = entry.crc then return content.toList else none

def readEntry (data : Data) (entry : EntryRecord) : Except ArchiveFault (Option ArchivedClass) := do
  let start ← openEntry data entry
  if entry.isDirectory then return none
  else
    match ClassName.ofEntry? entry.name with
    | none => return none
    | some className =>
      match contents? data entry start with
      | none => throw (.unreadable entry.name)
      | some bytes =>
        let release := ClassName.releaseOfEntry? entry.name
        return some { entry := entry.name, className, release, bytes }

def readClasses (data : Data) : Except ArchiveFault (List ArchivedClass) := do
  match directory? data with
  | none => throw .notAnArchive
  | some entries => return (← entries.mapM (readEntry data)).filterMap id

end ClassSieve.Archive
