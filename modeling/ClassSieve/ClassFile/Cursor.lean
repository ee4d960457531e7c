import ClassSieve.ClassFile.Fault
import ClassSieve.ClassFile.Word

/-!
# Reading bytes in order

A cursor stands before the bytes it may still read and knows the offset of the first of them in
the file. `carve` hands out a cursor over a part of the bytes, whose end is a declared length
rather than the end of the file; running past it is a different fault. A parser takes a cursor to
a value and a later cursor, or fails.
-/
namespace ClassSieve.ClassFile

structure Cursor where
  pos : Nat
  rest : Bytes
  overrun : Cause
  deriving Repr

namespace Cursor

def ofBytes (bytes : Bytes) : Cursor := ⟨0, bytes, .truncated⟩

def advance (cursor : Cursor) (n : Nat) : Cursor :=
  { cursor with pos := cursor.pos + n, rest := cursor.rest.drop n }

end Cursor

abbrev Parser := StateT Cursor (Except Fault)

namespace Parser

def failAt {α : Type} (offset : Nat) (cause : Cause) : Parser α :=
  throw (.malformed offset cause)

def position : Parser Nat := return (← get).pos

def take (n : Nat) : Parser Bytes := fun cursor =>
  let taken := cursor.rest.take n
  if taken.length < n then .error (.malformed cursor.pos cursor.overrun)
  else .ok (taken, cursor.advance n)

def skip (n : Nat) : Parser Unit := do
  let _ ← take n

def u1 : Parser UInt8 := return UInt8.ofNat (bigEndian (← take 1))
def u2 : Parser UInt16 := return UInt16.ofNat (bigEndian (← take 2))
def u4 : Parser UInt32 := return UInt32.ofNat (bigEndian (← take 4))

def carve (n : Nat) : Parser Cursor := do
  let start ← position
  let body ← take n
  return ⟨start, body, .lengthMismatch⟩

def within {α : Type} (cursor : Cursor) (p : Parser α) : Parser α :=
  fun outer => (p cursor).map fun result => (result.1, outer)

def timesAfter {α : Type} (n : Nat) (p : Parser α) (done : List α) : Parser (List α) :=
  match n with
  | 0 => return done.reverse
  | n + 1 => do
    let value ← p
    timesAfter n p (value :: done)

def times {α : Type} (n : Nat) (p : Parser α) : Parser (List α) := timesAfter n p []

theorem timesAfter_eq {α : Type} (n : Nat) (p : Parser α) (done : List α) :
    timesAfter n p done = return done.reverse ++ (← times n p) := by
  induction n generalizing done with
  | zero => simp [times, timesAfter]
  | succ n ih =>
    simp only [times, timesAfter, bind_assoc]
    congr 1
    funext value
    rw [ih, ih [value]]
    simp

@[simp] theorem times_zero {α : Type} (p : Parser α) : times 0 p = pure [] := rfl

theorem times_succ {α : Type} (n : Nat) (p : Parser α) :
    times (n + 1) p = do return (← p) :: (← times n p) := by
  simp only [times, timesAfter]
  congr 1
  funext value
  rw [timesAfter_eq]
  simp [times]

def counted {α : Type} (p : Parser α) : Parser (List α) := do
  let count ← u2
  times count.toNat p

end Parser

end ClassSieve.ClassFile
