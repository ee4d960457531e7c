import ClassSieve.ClassFile.Outline

/-!
# Parsers in sequence

How a run of parsers one after the other comes about from the runs of its parts, and what follows
at once from that for headers and outlines.
-/
namespace ClassSieve.ClassFile

theorem except_bind_eq_ok {ε α β : Type} {e : Except ε α} {f : α → Except ε β} {b : β} :
    (e >>= f) = .ok b ↔ ∃ a, e = .ok a ∧ f a = .ok b := by
  cases e with
  | error fault => exact ⟨fun h => (by cases h), fun ⟨_, h, _⟩ => (by cases h)⟩
  | ok a =>
    constructor
    · exact fun h => ⟨a, rfl, h⟩
    · rintro ⟨_, heq, h⟩
      cases heq
      exact h

namespace Parser
variable {α β : Type}

theorem run_pure (a : α) (cursor : Cursor) : (pure a : Parser α) cursor = .ok (a, cursor) := rfl

theorem run_bind (p : Parser α) (f : α → Parser β) (cursor : Cursor) :
    (p >>= f) cursor = (p cursor).bind fun result => f result.1 result.2 := rfl

theorem bind_eq_ok {p : Parser α} {f : α → Parser β} {cursor last : Cursor} {b : β} :
    (p >>= f) cursor = .ok (b, last) ↔
      ∃ a middle, p cursor = .ok (a, middle) ∧ f a middle = .ok (b, last) :=
  except_bind_eq_ok.trans Prod.exists

theorem take_of_le {cursor : Cursor} {n : Nat} (h : n ≤ cursor.rest.length) :
    take n cursor = .ok (cursor.rest.take n, cursor.advance n) := by
  rw [take]
  exact if_neg (by rw [List.length_take]; omega)

theorem take_of_lt {cursor : Cursor} {n : Nat} (h : cursor.rest.length < n) :
    take n cursor = .error (.malformed cursor.pos cursor.overrun) := by
  rw [take]
  exact if_pos (by rw [List.length_take]; omega)

theorem le_of_take_eq_ok {cursor last : Cursor} {n : Nat} {taken : Bytes}
    (h : take n cursor = .ok (taken, last)) :
    n ≤ cursor.rest.length ∧ taken = cursor.rest.take n ∧ last = cursor.advance n := by
  rcases Nat.lt_or_ge cursor.rest.length n with hlt | hle
  · rw [take_of_lt hlt] at h
    cases h
  · rw [take_of_le hle] at h
    cases h
    exact ⟨hle, rfl, rfl⟩

theorem within_eq_ok {p : Parser α} {body outer last : Cursor} {a : α} :
    within body p outer = .ok (a, last) ↔ last = outer ∧ ∃ inner, p body = .ok (a, inner) := by
  rw [within]
  cases p body with
  | error fault => simp [Except.map]
  | ok result =>
    obtain ⟨found, inner⟩ := result
    simp [Except.map, and_comm, eq_comm]

theorem within_eq_error {p : Parser α} {body outer : Cursor} {fault : Fault} :
    within body p outer = .error fault ↔ p body = .error fault := by
  rw [within]
  cases p body <;> simp [Except.map]

end Parser

theorem Outline.read_header {pool : Pool} {header : Header} {interest : Interest}
    {cursor last : Cursor} {outline : Outline}
    (h : Outline.read pool header interest cursor = .ok (outline, last)) :
    outline.header = header := by
  obtain ⟨fields, _, -, h⟩ := Parser.bind_eq_ok.1 h
  obtain ⟨methods, _, -, h⟩ := Parser.bind_eq_ok.1 h
  obtain ⟨annotations, _, -, h⟩ := Parser.bind_eq_ok.1 h
  cases h
  rfl

theorem parseHeader_eq_ok {bytes : Bytes} {header : Header} :
    parseHeader bytes = .ok header ↔
      ∃ pool cursor, Header.read (Cursor.ofBytes bytes) = .ok ((pool, header), cursor) := by
  rw [parseHeader]
  cases h : Header.read (Cursor.ofBytes bytes) with
  | error fault => simp [Except.map]
  | ok result =>
    obtain ⟨⟨pool, found⟩, cursor⟩ := result
    simp [Except.map]

theorem parseOutline_eq (bytes : Bytes) (interest : Interest) :
    parseOutline bytes interest =
      ((Header.read >>= fun found => Outline.read found.1 found.2 interest)
        (Cursor.ofBytes bytes)).map fun result => result.1 := by
  rw [parseOutline, Parser.run_bind]
  cases Header.read (Cursor.ofBytes bytes) with
  | error fault => rfl
  | ok result =>
    obtain ⟨⟨pool, header⟩, middle⟩ := result
    simp only [Except.bind, bind]
    cases Outline.read pool header interest middle <;> rfl

theorem parseOutline_eq_ok {bytes : Bytes} {interest : Interest} {outline : Outline} :
    parseOutline bytes interest = .ok outline ↔
      ∃ pool header middle last, Header.read (Cursor.ofBytes bytes) = .ok ((pool, header), middle) ∧
        Outline.read pool header interest middle = .ok (outline, last) := by
  constructor
  · intro h
    obtain ⟨⟨⟨pool, header⟩, middle⟩, hheader, h⟩ := except_bind_eq_ok.1 h
    obtain ⟨⟨found, last⟩, hread, h⟩ := except_bind_eq_ok.1 h
    cases h
    exact ⟨pool, header, middle, last, hheader, hread⟩
  · rintro ⟨pool, header, middle, last, hheader, hread⟩
    exact except_bind_eq_ok.2 ⟨_, hheader, except_bind_eq_ok.2 ⟨_, hread, rfl⟩⟩

end ClassSieve.ClassFile
