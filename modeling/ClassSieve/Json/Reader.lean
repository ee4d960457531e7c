import ClassSieve.Json
import ClassSieve.Text.Cut
import ClassSieve.Text.ModifiedUtf8

/-!
# Reading JSON

`Json.parse?` reads one value from a text that holds nothing else but blanks. The grammar is the
strict one: no comments, no trailing commas, no unescaped control characters in strings, no leading
zeros. An array or object inside 127 others is unreadable.
-/
namespace ClassSieve.Json
open Text

def deepest : Nat := 127

def largestNatural : Nat := 0xFFFFFFFFFFFFFFFF

def isSpace (c : Char) : Bool := c = ' ' || c = '\t' || c = '\n' || c = '\r'

def skipSpace (cs : List Char) : List Char := cs.dropWhile isSpace

def hexDigit? (c : Char) : Option Nat :=
  if '0' ≤ c ∧ c ≤ '9' then some (c.toNat - '0'.toNat)
  else if 'a' ≤ c ∧ c ≤ 'f' then some (c.toNat - 'a'.toNat + 10)
  else if 'A' ≤ c ∧ c ≤ 'F' then some (c.toNat - 'A'.toNat + 10)
  else none

def hexUnit? (a b c d : Char) : Option UInt16 := do
  let value := (((← hexDigit? a) * 16 + (← hexDigit? b)) * 16 + (← hexDigit? c)) * 16
  return UInt16.ofNat (value + (← hexDigit? d))

def escapedChar? (c : Char) : Option Char :=
  [('"', '"'), ('\\', '\\'), ('/', '/'), ('b', '\x08'), ('f', '\x0c'), ('n', '\n'), ('r', '\r'),
    ('t', '\t')].lookup c

def stringUnits? : List Char → Option (List UInt16 × List Char)
  | [] => none
  | '"' :: rest => some ([], rest)
  | '\\' :: 'u' :: a :: b :: c :: d :: rest => do
    let u ← hexUnit? a b c d
    let (us, rest) ← stringUnits? rest
    return (u :: us, rest)
  | '\\' :: c :: rest => do
    let escaped ← escapedChar? c
    let (us, rest) ← stringUnits? rest
    return (unitsOf escaped ++ us, rest)
  | c :: rest =>
    if c.toNat < 0x20 || c = '\\' then none
    else do
      let (us, rest) ← stringUnits? rest
      return (unitsOf c ++ us, rest)

def stringBody? (cs : List Char) : Option (Option String × List Char) := do
  let (us, rest) ← stringUnits? cs
  return ((ofUnits? us).map String.ofList, rest)

structure NumberText where
  negative : Bool
  whole : List Char
  fraction : List Char
  exponentNegative : Bool
  exponent : List Char

namespace NumberText

/-- From half way to the next power of two on, a magnitude is beyond every float. -/
def beyondFloats : Nat := Nat.pow 2 1024 - Nat.pow 2 970

def overflows (n : NumberText) : Bool :=
  let significand := digitsValue (n.whole ++ n.fraction)
  let exponent : Int := digitsValue n.exponent
  let scale := (if n.exponentNegative then -exponent else exponent) - n.fraction.length
  if significand = 0 then false
  else
    let magnitude := (Nat.toDigits 10 significand).length + scale
    if 310 < magnitude then true
    else if magnitude < 308 then false
    else if 0 ≤ scale then beyondFloats ≤ significand * Nat.pow 10 scale.toNat
    else beyondFloats * Nat.pow 10 (-scale).toNat ≤ significand

end NumberText

def digits? (cs : List Char) : Option (List Char × List Char) :=
  let run := cs.takeWhile Char.isDigit
  if run.isEmpty then none else some (run, cs.dropWhile Char.isDigit)

def fraction? : List Char → Option (List Char × List Char)
  | '.' :: rest => digits? rest
  | cs => some ([], cs)

def exponent? : List Char → Option (Bool × List Char × List Char)
  | [] => some (false, [], [])
  | e :: rest =>
    if e = 'e' || e = 'E' then
      match rest with
      | '-' :: rest => (digits? rest).map fun parts => (true, parts)
      | '+' :: rest => (digits? rest).map fun parts => (false, parts)
      | _ => (digits? rest).map fun parts => (false, parts)
    else some (false, [], e :: rest)

def whole? : List Char → Option (List Char × List Char)
  | '0' :: rest => some (['0'], rest)
  | cs => digits? cs

def numberText? (cs : List Char) : Option (NumberText × List Char) := do
  let negative := cs.head? = some '-'
  let (whole, rest) ← whole? (if negative then cs.tail else cs)
  let (fraction, rest) ← fraction? rest
  let (exponentNegative, exponent, rest) ← exponent? rest
  return ({ negative, whole, fraction, exponentNegative, exponent }, rest)

def number? (cs : List Char) : Option (Json × List Char) := do
  let (n, rest) ← numberText? cs
  let value := digitsValue n.whole
  if !n.negative && n.fraction.isEmpty && n.exponent.isEmpty && value ≤ largestNatural then
    return (natural value, rest)
  else if n.overflows then return (unreadable, rest)
  else return (otherNumber (String.ofList (cs.take (cs.length - rest.length))), rest)

def word? (cs : List Char) : Option (Json × List Char) :=
  [("null", null), ("true", bool true), ("false", bool false)].findSome? fun entry =>
    (entry.1.toList.isPrefixOf? cs).map fun rest => (entry.2, rest)

def bounded (levels : Nat) (value : Json) : Json :=
  if levels = 0 then unreadable else value

def ofMembers (members : List (Option String × Json)) : Json :=
  match members.mapM fun member => member.1.map fun key => (key, member.2) with
  | some members => object members
  | none => unreadable

mutual

/-- A value, and what follows it. A container takes two of `fuel` to open, and `levels` more
containers may stand inside one another. -/
def value? (fuel levels : Nat) (cs : List Char) : Option (Json × List Char) :=
  match fuel with
  | 0 => none
  | fuel + 1 =>
    match skipSpace cs with
    | '"' :: rest => do
      let (text, rest) ← stringBody? rest
      return ((text.map string).getD unreadable, rest)
    | '[' :: rest =>
      match skipSpace rest with
      | ']' :: rest => some (bounded levels (array []), rest)
      | rest => do
        let (items, rest) ← items? fuel (levels - 1) rest
        return (bounded levels (array items), rest)
    | '\x7b' :: rest =>
      match skipSpace rest with
      | '\x7d' :: rest => some (bounded levels (object []), rest)
      | rest => do
        let (members, rest) ← members? fuel (levels - 1) rest
        return (bounded levels (ofMembers members), rest)
    | cs =>
      match word? cs with
      | some found => some found
      | none => number? cs

def items? (fuel levels : Nat) (cs : List Char) : Option (List Json × List Char) :=
  match fuel with
  | 0 => none
  | fuel + 1 => do
    let (item, rest) ← value? fuel levels cs
    match skipSpace rest with
    | ',' :: rest =>
      let (items, rest) ← items? fuel levels rest
      return (item :: items, rest)
    | ']' :: rest => return ([item], rest)
    | _ => none

def members? (fuel levels : Nat) (cs : List Char) :
    Option (List (Option String × Json) × List Char) :=
  match fuel with
  | 0 => none
  | fuel + 1 =>
    match skipSpace cs with
    | '"' :: rest => do
      let (key, rest) ← stringBody? rest
      match skipSpace rest with
      | ':' :: rest =>
        let (value, rest) ← value? fuel levels rest
        match skipSpace rest with
        | ',' :: rest =>
          let (members, rest) ← members? fuel levels rest
          return ((key, value) :: members, rest)
        | '\x7d' :: rest => return ([(key, value)], rest)
        | _ => none
      | _ => none
    | _ => none

end

def parse? (text : String) : Option Json := do
  let cs := text.toList
  let (value, rest) ← value? (2 * cs.length + 2) deepest cs
  if (skipSpace rest).isEmpty then return value else none

end ClassSieve.Json
