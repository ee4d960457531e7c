/-!
# UTF-8

`decode?` reads bytes that are UTF-8 throughout. `decodeLenient` reads bytes as UTF-8 where they
are, and writes the replacement character for the rest: once for each longest run of bytes that
begins a character and does not finish it, or for one byte that begins none.
-/
namespace ClassSieve.Text.Utf8

def decode? (bytes : List UInt8) : Option String := String.fromUTF8? ⟨bytes.toArray⟩

def replacement : Char := '\uFFFD'

def followers? (first : Nat) : Option (Nat × Nat × Nat) :=
  if 0xC2 ≤ first ∧ first ≤ 0xDF then some (0x80, 0xBF, 1)
  else if first = 0xE0 then some (0xA0, 0xBF, 2)
  else if first = 0xED then some (0x80, 0x9F, 2)
  else if 0xE1 ≤ first ∧ first ≤ 0xEF then some (0x80, 0xBF, 2)
  else if first = 0xF0 then some (0x90, 0xBF, 3)
  else if 0xF1 ≤ first ∧ first ≤ 0xF3 then some (0x80, 0xBF, 3)
  else if first = 0xF4 then some (0x80, 0x8F, 3)
  else none

def payload (first count : Nat) : Nat :=
  if count = 1 then first - 0xC0 else if count = 2 then first - 0xE0 else first - 0xF0

/-- Decodes what follows a first byte of which `value` is read, when `left` bytes are to follow
and the next of them lies between `low` and `high`. With `left` zero a character begins. -/
def decodeAfter (value left low high : Nat) : List UInt8 → List Char
  | [] => if left = 0 then [] else [replacement]
  | b :: rest =>
    let n := b.toNat
    if left ≠ 0 ∧ low ≤ n ∧ n ≤ high then
      let value := 64 * value + (n - 0x80)
      if left = 1 then Char.ofNat value :: decodeAfter 0 0 0 0 rest
      else decodeAfter value (left - 1) 0x80 0xBF rest
    else
      let broken := if left = 0 then [] else [replacement]
      broken ++
        if n < 0x80 then Char.ofNat n :: decodeAfter 0 0 0 0 rest
        else
          match followers? n with
          | some (low, high, count) => decodeAfter (payload n count) count low high rest
          | none => replacement :: decodeAfter 0 0 0 0 rest

def decodeLenient (bytes : List UInt8) : String := String.ofList (decodeAfter 0 0 0 0 bytes)

end ClassSieve.Text.Utf8
