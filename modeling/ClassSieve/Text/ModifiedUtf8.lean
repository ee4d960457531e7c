/-!
# Sixteen-bit units and modified UTF-8

A character up to U+FFFF is one unit; any other is a high and a low surrogate. `ofUnits?` reads a
sequence of units back and refuses a surrogate without its partner.

Modified UTF-8 is the text encoding of class files. Each unit of a text is written on its own: one
byte for 1 to 0x7F, two bytes for 0 and 0x80 to 0x7FF, three bytes above. So no zero byte occurs,
and a character above U+FFFF takes six bytes. `decode` accepts longer forms of a unit than these; a
fault is the position of the first zero byte, else of the first byte that breaks the unit grammar,
else zero when surrogates do not pair up.
-/
namespace ClassSieve.Text

def isHighSurrogate (u : UInt16) : Bool := 0xD800 ≤ u.toNat && u.toNat < 0xDC00
def isLowSurrogate (u : UInt16) : Bool := 0xDC00 ≤ u.toNat && u.toNat < 0xE000

def unitsOf (c : Char) : List UInt16 :=
  if c.toNat < 0x10000 then [UInt16.ofNat c.toNat]
  else [UInt16.ofNat (0xD800 + (c.toNat - 0x10000) / 0x400),
    UInt16.ofNat (0xDC00 + (c.toNat - 0x10000) % 0x400)]

def units (cs : List Char) : List UInt16 := cs.flatMap unitsOf

def pairedChar (high low : UInt16) : Char :=
  Char.ofNat (0x10000 + (high.toNat - 0xD800) * 0x400 + (low.toNat - 0xDC00))

def ofUnits? : List UInt16 → Option (List Char)
  | [] => some []
  | [u] => if isHighSurrogate u || isLowSurrogate u then none else some [Char.ofNat u.toNat]
  | u :: v :: rest =>
    if isHighSurrogate u then
      if isLowSurrogate v then (ofUnits? rest).map (pairedChar u v :: ·) else none
    else if isLowSurrogate u then none
    else (ofUnits? (v :: rest)).map (Char.ofNat u.toNat :: ·)

namespace ModifiedUtf8

def encodeUnit (u : UInt16) : List UInt8 :=
  let n := u.toNat
  if 1 ≤ n ∧ n < 0x80 then [UInt8.ofNat n]
  else if n < 0x800 then [UInt8.ofNat (0xC0 + n / 0x40), UInt8.ofNat (0x80 + n % 0x40)]
  else [UInt8.ofNat (0xE0 + n / 0x1000), UInt8.ofNat (0x80 + n / 0x40 % 0x40),
    UInt8.ofNat (0x80 + n % 0x40)]

def encode (text : String) : List UInt8 := (units text.toList).flatMap encodeUnit

def isTail (b : UInt8) : Bool := 0x80 ≤ b.toNat && b.toNat < 0xC0

def unitOfTwo (a b : UInt8) : UInt16 :=
  UInt16.ofNat ((a.toNat - 0xC0) * 0x40 + (b.toNat - 0x80))

def unitOfThree (a b c : UInt8) : UInt16 :=
  UInt16.ofNat ((a.toNat - 0xE0) * 0x1000 + (b.toNat - 0x80) * 0x40 + (c.toNat - 0x80))

/-- The units of bytes that begin at position `pos`, or the position of the first byte that
belongs to no unit; a unit cut short breaks where the bytes end. -/
def decodeUnits (pos : Nat) : List UInt8 → Except Nat (List UInt16)
  | [] => .ok []
  | a :: rest =>
    if a.toNat < 0x80 then (decodeUnits (pos + 1) rest).map (UInt16.ofNat a.toNat :: ·)
    else if 0xC0 ≤ a.toNat ∧ a.toNat < 0xE0 then
      match rest with
      | b :: rest =>
        if isTail b then (decodeUnits (pos + 2) rest).map (unitOfTwo a b :: ·)
        else .error (pos + 1)
      | [] => .error (pos + 1)
    else if 0xE0 ≤ a.toNat ∧ a.toNat < 0xF0 then
      match rest with
      | b :: c :: rest =>
        if !isTail b then .error (pos + 1)
        else if !isTail c then .error (pos + 2)
        else (decodeUnits (pos + 3) rest).map (unitOfThree a b c :: ·)
      | [b] => if isTail b then .error (pos + 2) else .error (pos + 1)
      | [] => .error (pos + 1)
    else .error pos

def decodeByUnits (raw : List UInt8) : Except Nat String :=
  match decodeUnits 0 raw with
  | .error pos => .error pos
  | .ok us =>
    match ofUnits? us with
    | some cs => .ok (String.ofList cs)
    | none => .error 0

def isAscii (raw : List UInt8) : Bool := raw.all fun b => b.toNat < 0x80

def asciiText (raw : List UInt8) : String := String.ofList (raw.map fun b => Char.ofNat b.toNat)

/-- Bytes that are all below 0x80 are not looked at for units. -/
def decode (raw : List UInt8) : Except Nat String :=
  match raw.findIdx? (· = 0) with
  | some pos => .error pos
  | none => if isAscii raw then .ok (asciiText raw) else decodeByUnits raw

end ModifiedUtf8

end ClassSieve.Text
