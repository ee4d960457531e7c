import ClassSieve.ClassFile.Outline

/-!
# Reading by offsets

The readers of class files once more, over the whole file: what is left to read is a stretch of
offsets in it, and a pool holds where its texts stand instead of the texts. A scanner checks what
its accesses rely on. Each stretch that comes about lies in the file, a place of the pool that is
filled exists, a text stands where the pool says, and a number that is put into two bytes fits.
Where such a check fails the scan ends in a `breach`, which is no fault of the file.
-/
namespace ClassSieve.ClassFile

structure Stretch where
  pos : Nat
  stop : Nat
  overrun : Cause
  deriving DecidableEq, Repr

namespace Stretch

def ofFile (file : Bytes) : Stretch := ⟨0, file.length, .truncated⟩

def advance (stretch : Stretch) (n : Nat) : Stretch := { stretch with pos := stretch.pos + n }

def InFile (file : Bytes) (stretch : Stretch) : Prop :=
  stretch.pos ≤ stretch.stop ∧ stretch.stop ≤ file.length

instance (file : Bytes) (stretch : Stretch) : Decidable (stretch.InFile file) :=
  inferInstanceAs (Decidable (_ ∧ _))

end Stretch

inductive Halt where
  | fault (fault : Fault)
  | breach
  deriving DecidableEq, Repr

abbrev Scanner := StateT Stretch (Except Halt)

namespace Scanner

/-- What stands in a pool at an index: for a text the offset of its length, for a class the index of
its name. -/
structure Place where
  tag : UInt8
  value : Nat
  deriving DecidableEq, Repr

abbrev Places := Array Place

def Short (n : Nat) : Prop := n < 0x10000

instance (n : Nat) : Decidable (Short n) := inferInstanceAs (Decidable (_ < _))

def require (p : Prop) [Decidable p] : Except Halt Unit :=
  if p then .ok () else .error .breach

def failAt {α : Type} (offset : Nat) (cause : Cause) : Scanner α :=
  throw (.fault (.malformed offset cause))

def position : Scanner Nat := return (← get).pos

def within {α : Type} (body : Stretch) (scan : Scanner α) : Scanner α :=
  fun outer => (scan body).map fun result => (result.1, outer)

def times {α : Type} (n : Nat) (scan : Scanner α) : Scanner (List α) :=
  match n with
  | 0 => return []
  | n + 1 => do
    let value ← scan
    let values ← times n scan
    return value :: values

section
variable (file : Bytes)

def take (n : Nat) : Scanner Bytes := fun here =>
  if here.stop - here.pos < n then .error (.fault (.malformed here.pos here.overrun))
  else do
    require ((here.advance n).InFile file)
    return ((file.drop here.pos).take n, here.advance n)

def skip (n : Nat) : Scanner Unit := do
  let _ ← take file n

def u1 : Scanner UInt8 := return UInt8.ofNat (bigEndian (← take file 1))
def u2 : Scanner UInt16 := return UInt16.ofNat (bigEndian (← take file 2))
def u4 : Scanner UInt32 := return UInt32.ofNat (bigEndian (← take file 4))

def carve (n : Nat) : Scanner Stretch := do
  let start ← position
  skip file n
  let body : Stretch := ⟨start, start + n, .lengthMismatch⟩
  require (body.InFile file)
  return body

def counted {α : Type} (scan : Scanner α) : Scanner (List α) := do
  let count ← u2 file
  times count.toNat scan

/-! ## The pool -/

def readValue (tag : UInt8) (layout : TagLayout) : Scanner Nat := do
  if tag = textTag then
    let start ← position
    let length ← u2 file
    skip file length.toNat
    return start
  else if tag = classTag then return (← u2 file).toNat
  else
    skip file (layout.width.getD 0)
    return 0

def readPlace (major : UInt16) : Scanner (Place × Bool) := do
  let start ← position
  let tag ← u1 file
  match tagLayout? tag with
  | none => failAt start (.unknownPoolTag tag)
  | some layout =>
    if major < layout.since then failAt start (.tagNotInVersion tag major)
    else
      let value ← readValue file tag layout
      return (⟨tag, value⟩, layout.wide)

def readPlaces (major : UInt16) (count index : Nat) (places : Places) : Scanner Places :=
  if index < count then do
    let start ← position
    let (place, wide) ← readPlace file major
    let next := index + if wide then 2 else 1
    if count < next then
      require (Short (next - 1))
      failAt start (.poolIndexOutOfRange (next - 1))
    else
      require (index < places.size)
      readPlaces major count next (places.setIfInBounds index place)
  else return places
termination_by count - index
decreasing_by split <;> omega

def readPool (major : UInt16) : Scanner Places := do
  let count ← u2 file
  readPlaces file major count.toNat 1 (Array.replicate count.toNat ⟨0, 0⟩)

def expect (places : Places) (index : UInt16) (tag : UInt8) (offset : Nat) : Except Halt Place :=
  match places[index.toNat]? with
  | some place =>
    if index = 0 then .error outOfRange
    else if place.tag = tag then .ok place
    else .error (.fault (.malformed offset (.unexpectedPoolTag index.toNat place.tag)))
  | none => .error outOfRange
where
  outOfRange := .fault (.malformed offset (.poolIndexOutOfRange index.toNat))

def lengthAt (offset : Nat) : Nat := bigEndian ((file.drop offset).take 2)

def textSpan (places : Places) (index : UInt16) (offset : Nat) : Except Halt (Nat × Bytes) := do
  let place ← expect places index textTag offset
  let start := place.value + 2
  require (start ≤ file.length)
  let length := lengthAt file place.value
  require (start + length ≤ file.length)
  return (start, (file.drop start).take length)

def text (places : Places) (index : UInt16) (offset : Nat) : Except Halt String := do
  let (start, raw) ← textSpan file places index offset
  (Pool.decodeText start raw).mapError .fault

def className (places : Places) (index : UInt16) (offset : Nat) : Except Halt String := do
  let place ← expect places index classTag offset
  require (Short place.value)
  text file places (UInt16.ofNat place.value) offset

/-! ## Headers -/

def readVersion : Scanner (UInt16 × UInt16) := do
  let start ← position
  let number ← u4 file
  if number ≠ magic then failAt start .badMagic
  else
    let minor ← u2 file
    let offset ← position
    let major ← u2 file
    if newestMajor < major then throw (.fault (.unsupportedVersion major minor))
    else if major < oldestMajor then failAt offset (.invalidVersion major)
    else return (minor, major)

def readClassName (places : Places) : Scanner String := do
  let offset ← position
  let index ← u2 file
  className file places index offset

def readSuperName (places : Places) (access : AccessFlags) (name : String) :
    Scanner (Option String) := do
  let offset ← position
  let index ← u2 file
  if index = 0 then
    if name = rootClass || access.isModule then return none
    else failAt offset .missingSuperClass
  else
    let found ← className file places index offset
    return some found

def readHeader : Scanner (Places × Header) := do
  let (minor, major) ← readVersion file
  let places ← readPool file major
  let access ← u2 file
  let name ← readClassName file places
  let superName ← readSuperName file places ⟨access⟩ name
  let interfaces ← counted file (readClassName file places)
  return (places, { minor, major, access := ⟨access⟩, name, superName, interfaces })

/-! ## Attributes -/

def skipValue (levels : Nat) : Scanner Unit :=
  match levels with
  | 0 => do failAt (← position) .annotationTooDeep
  | levels + 1 => do
    let start ← position
    let tag ← u1 file
    if tag ∈ AnnotationTable.constantTags then skip file 2
    else if tag = AnnotationTable.enumTag then skip file 4
    else if tag = AnnotationTable.nestedTag then
      skip file 2
      let count ← u2 file
      let _ ← times count.toNat (do skip file 2; skipValue levels)
    else if tag = AnnotationTable.arrayTag then
      let count ← u2 file
      let _ ← times count.toNat (skipValue levels)
    else failAt start (.unknownElementTag tag)

def skipPairs (levels : Nat) : Scanner Unit := do
  let _ ← counted file (do skip file 2; skipValue file levels)

def readAnnotationEntry (places : Places) (interest : Interest) : Scanner (Option String) := do
  let offset ← position
  let index ← u2 file
  let (_, raw) ← textSpan file places index offset
  skipPairs file AnnotationTable.levels
  return interest.find? raw

def readAnnotations (places : Places) (interest : Interest) : Scanner (List String) := do
  let found ← counted file (readAnnotationEntry file places interest)
  return found.filterMap id

def readAttribute (places : Places) (interest : Interest) : Scanner (List String) := do
  let offset ← position
  let nameIndex ← u2 file
  let length ← u4 file
  let body ← carve file length.toNat
  if interest.isEmpty then return []
  else
    let (_, name) ← textSpan file places nameIndex offset
    if name = asciiBytes visibleAnnotations then
      within body (readAnnotations file places interest)
    else return []

def readAttributes (places : Places) (interest : Interest) : Scanner (List String) := do
  let found ← counted file (readAttribute file places interest)
  return found.flatten

/-! ## Outlines -/

def readText (places : Places) : Scanner String := do
  let offset ← position
  let index ← u2 file
  text file places index offset

def readField (places : Places) : Scanner Field := do
  let access ← u2 file
  let name ← readText file places
  let descriptor ← readText file places
  let _ ← readAttributes file places Interest.empty
  return { access := ⟨access⟩, name, descriptor }

def readMethod (places : Places) (interest : Interest) : Scanner Method := do
  let access ← u2 file
  let name ← readText file places
  let descriptor ← readText file places
  let annotations ← readAttributes file places interest
  return { access := ⟨access⟩, name, descriptor, annotations }

def readOutline (places : Places) (header : Header) (interest : Interest) : Scanner Outline := do
  let fields ← counted file (readField file places)
  let methods ← counted file (readMethod file places interest)
  let annotations ← readAttributes file places interest
  return { header, fields, methods, annotations }

end

def parseHeader (file : Bytes) : Except Halt Header :=
  (readHeader file (Stretch.ofFile file)).map fun result => result.1.2

def parseOutline (file : Bytes) (interest : Interest) : Except Halt Outline :=
  ((readHeader file >>= fun found => readOutline file found.1 found.2 interest)
    (Stretch.ofFile file)).map fun result => result.1

end Scanner

end ClassSieve.ClassFile
