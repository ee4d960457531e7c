import ClassSieve.Text.Utf8

/-!
# The directory of a zip archive

An archive ends with a record that tells where its directory stands and how many entries that has.
Numbers are written with the lowest byte first. Offsets count from the start of the archive, which
may have other data in front of it; how much is seen from where the end record really stands. An
archive beyond the limits of the old end record has a second, wider one. Names of entries that do
not say they are in UTF-8 are in code page 437.
-/
namespace ClassSieve.Archive

namespace CodePage437

def upperHalf : List Char :=
  ("ÇüéâäàåçêëèïîìÄÅÉæÆôöòûùÿÖÜ¢£¥₧ƒáíóúñÑªº¿⌐¬½¼¡«»░▒▓│┤╡╢╖╕╣║╗╝╜╛┐└┴┬├─┼╞╟╚╔╩╦╠═╬╧╨╤╥╙╘╒╓╫╪┘┌█▄▌▐▀"
    ++ "αßΓπΣσµτΦΘΩδ∞φε∩≡±≥≤⌠⌡÷≈°∙·√ⁿ²■\u00A0").toList

def decodeByte (b : UInt8) : Char :=
  if b.toNat < 0x80 then Char.ofNat b.toNat else upperHalf.getD (b.toNat - 0x80) ' '

def decode (bytes : List UInt8) : String := String.ofList (bytes.map decodeByte)

end CodePage437

abbrev Data := Array UInt8

namespace Data

def number? (data : Data) (pos width : Nat) : Option Nat :=
  if data.size < pos + width then none
  else some ((data.extract pos (pos + width)).foldr (fun b value => 256 * value + b.toNat) 0)

def slice? (data : Data) (pos length : Nat) : Option (List UInt8) :=
  if data.size < pos + length then none else some (data.extract pos (pos + length)).toList

end Data

structure EntryRecord where
  name : String
  flags : Nat
  method : Nat
  crc : Nat
  compressedSize : Nat
  uncompressedSize : Nat
  start : Nat
  strong : Bool

namespace EntryRecord

def isDirectory (entry : EntryRecord) : Bool :=
  match entry.name.toList.getLast? with
  | some c => c = '/' || c = '\\'
  | none => false

def isEncrypted (entry : EntryRecord) : Bool := entry.flags % 2 = 1 || entry.strong

/-- The value of a four-byte field that says that an extra field holds the number. -/
def elsewhere : Nat := 0xFFFFFFFF

def widen? (value : Nat) (extra : List UInt8) : Option (Nat × List UInt8) :=
  if value ≠ elsewhere then some (value, extra)
  else do
    let n ← Data.number? extra.toArray 0 8
    return (n, extra.drop 8)

/-- The entry with the numbers of a wide extra field, and what follows them. A field cut short
leaves the numbers that it does not reach. -/
def applyWide (entry : EntryRecord) (extra : List UInt8) : EntryRecord × Option (List UInt8) :=
  match widen? entry.uncompressedSize extra with
  | none => (entry, none)
  | some (uncompressedSize, extra) =>
    let entry := { entry with uncompressedSize }
    match widen? entry.compressedSize extra with
    | none => (entry, none)
    | some (compressedSize, extra) =>
      let entry := { entry with compressedSize }
      match widen? entry.start extra with
      | none => (entry, none)
      | some (start, extra) => ({ entry with start }, some extra)

def applyStrong? (entry : EntryRecord) (length : Nat) (body : List UInt8) : Option EntryRecord := do
  if length ≠ 7 then none
  match body with
  | v :: v' :: i :: i' :: strength :: m :: m' :: _ =>
    let version := v.toNat + 256 * v'.toNat
    if i.toNat + 256 * i'.toNat ≠ 0x4541 then none
    else if version ≠ 1 ∧ version ≠ 2 then none
    else if strength = 0 ∨ 3 < strength then none
    else some { entry with strong := true, method := m.toNat + 256 * m'.toNat }
  | _ => some entry

def applyExtra? (fuel : Nat) (entry : EntryRecord) (extra : List UInt8) : Option EntryRecord :=
  match fuel, extra with
  | fuel + 1, k :: k' :: l :: l' :: body =>
    let length := l.toNat + 256 * l'.toNat
    match k.toNat + 256 * k'.toNat with
    | 0x0001 =>
      match entry.applyWide body with
      | (entry, none) => some entry
      | (entry, some rest) =>
        entry.applyExtra? fuel (rest.drop (length - (body.length - rest.length)))
    | 0x9901 => do
      let entry ← entry.applyStrong? length body
      entry.applyExtra? fuel (body.drop 14)
    | _ => entry.applyExtra? fuel (body.drop length)
  | _, _ => some entry

/-- The method that stands for encryption with the real method in an extra field. -/
def strongMethod : Nat := 99

def read? (data : Data) (base pos : Nat) : Option (EntryRecord × Nat) := do
  if (← data.number? pos 4) ≠ 0x02014B50 then none
  let flags ← data.number? (pos + 8) 2
  let method ← data.number? (pos + 10) 2
  let crc ← data.number? (pos + 16) 4
  let compressedSize ← data.number? (pos + 20) 4
  let uncompressedSize ← data.number? (pos + 24) 4
  let nameLength ← data.number? (pos + 28) 2
  let extraLength ← data.number? (pos + 30) 2
  let commentLength ← data.number? (pos + 32) 2
  let start ← data.number? (pos + 42) 4
  let rawName ← data.slice? (pos + 46) nameLength
  let extra ← data.slice? (pos + 46 + nameLength) extraLength
  let next := pos + 46 + nameLength + extraLength + commentLength
  if data.size < next then none
  let name := if flags / 0x800 % 2 = 1 then Text.Utf8.decodeLenient rawName
    else CodePage437.decode rawName
  let entry : EntryRecord := {
    name, flags, method, crc, compressedSize, uncompressedSize, start, strong := false }
  let entry ← entry.applyExtra? (extra.length + 1) extra
  if entry.method = strongMethod ∧ !entry.strong then none
  return ({ entry with start := entry.start + base }, next)

def readAll? (data : Data) (base : Nat) (n pos : Nat) (done : List EntryRecord) :
    Option (List EntryRecord) :=
  match n with
  | 0 => some done.reverse
  | n + 1 => do
    let (entry, next) ← read? data base pos
    readAll? data base n next (entry :: done)

end EntryRecord

structure DirectoryPlace where
  base : Nat
  start : Nat
  entries : Nat

structure EndRecord where
  pos : Nat
  disk : Nat
  directoryDisk : Nat
  entriesOnDisk : Nat
  entries : Nat
  size : Nat
  start : Nat
  commentLength : Nat

namespace EndRecord

def width : Nat := 22

def lastMark? (data : Data) (mark lowest pos : Nat) : Option Nat :=
  if pos < lowest then none
  else if data.number? pos 4 = some mark then some pos
  else
    match pos with
    | 0 => none
    | pos + 1 => lastMark? data mark lowest pos

def read? (data : Data) : Option EndRecord := do
  if data.size < width then none
  let pos ← lastMark? data 0x06054B50 (data.size - (width + 0xFFFF)) (data.size - width)
  let record : EndRecord := {
    pos
    disk := ← data.number? (pos + 4) 2
    directoryDisk := ← data.number? (pos + 6) 2
    entriesOnDisk := ← data.number? (pos + 8) 2
    entries := ← data.number? (pos + 10) 2
    size := ← data.number? (pos + 12) 4
    start := ← data.number? (pos + 16) 4
    commentLength := ← data.number? (pos + 20) 2 }
  if data.size < pos + width + record.commentLength then none
  return record

def isTooSmall (record : EndRecord) : Bool :=
  record.disk = 0xFFFF || record.directoryDisk = 0xFFFF || record.entriesOnDisk = 0xFFFF
    || record.entries = 0xFFFF || record.size = 0xFFFFFFFF || record.start = 0xFFFFFFFF

def locator? (data : Data) (record : EndRecord) : Option (Nat × Nat) := do
  let back := 20 + width + record.commentLength
  if data.size < back then none
  let pos := data.size - back
  if (← data.number? pos 4) ≠ 0x07064B50 then none
  return (← data.number? (pos + 8) 8, ← data.number? (pos + 4) 4)

def firstMark? (data : Data) (mark n pos : Nat) : Option Nat :=
  match n with
  | 0 => none
  | n + 1 =>
    if data.number? pos 4 = some mark then some pos else firstMark? data mark n (pos + 1)

def widePlace? (data : Data) (record : EndRecord) (nominal : Nat) : Option DirectoryPlace := do
  if record.pos < 60 then none
  let pos ← firstMark? data 0x06064B50 (record.pos - 60 + 1 - nominal) nominal
  let disk ← data.number? (pos + 16) 4
  let directoryDisk ← data.number? (pos + 20) 4
  let entries ← data.number? (pos + 32) 8
  let start ← data.number? (pos + 48) 8
  if disk ≠ directoryDisk then none
  let base := pos - nominal
  return { base, start := start + base, entries }

def place? (data : Data) (record : EndRecord) : Option DirectoryPlace := do
  if !record.isTooSmall && record.disk ≠ record.directoryDisk then none
  match record.locator? data with
  | none =>
    if record.pos < record.size + record.start then none
    let base := record.pos - record.size - record.start
    return { base, start := record.start + base, entries := record.entriesOnDisk }
  | some (nominal, directoryDisk) =>
    if !record.isTooSmall && record.disk ≠ directoryDisk then none
    record.widePlace? data nominal

end EndRecord

def directory? (data : Data) : Option (List EntryRecord) := do
  let record ← EndRecord.read? data
  let place ← record.place? data
  EntryRecord.readAll? data place.base place.entries place.start []

end ClassSieve.Archive
