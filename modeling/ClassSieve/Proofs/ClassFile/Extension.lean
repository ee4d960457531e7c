import ClassSieve.Proofs.ClassFile.Parsers
import Mathlib.Data.List.Infix

/-!
# Answers that stand whatever follows

A reader looks at bytes in order and decides as soon as it can. So whatever it answers, a value or a
fault, it answers also when more bytes follow, unless the fault is that the bytes end too soon.
Every construct of parsers keeps this (`Parser.Local`), and carved out bodies do not see what
follows.
-/
namespace ClassSieve.ClassFile

def Fault.IsTruncation (fault : Fault) : Prop := ∃ offset, fault = .malformed offset .truncated

/-- Whether failures are about what was read and not about where the bytes end. -/
def Untruncated {α : Type} (e : Except Fault α) : Prop :=
  ∀ fault, e = .error fault → ¬ fault.IsTruncation

namespace Untruncated
variable {α β : Type}

theorem ok (a : α) : Untruncated (.ok a) := fun _ h => by cases h

theorem malformed {offset : Nat} {cause : Cause} (h : cause ≠ .truncated) :
    Untruncated (.error (.malformed offset cause) : Except Fault α) := by
  rintro fault hfault ⟨found, rfl⟩
  cases hfault
  exact h rfl

theorem bind {e : Except Fault α} {f : α → Except Fault β} (he : Untruncated e)
    (hf : ∀ a, Untruncated (f a)) : Untruncated (e >>= f) := by
  cases e with
  | ok a => exact hf a
  | error fault =>
    intro found hfound
    cases hfound
    exact he fault rfl

end Untruncated

namespace Pool
variable (pool : Pool) (index : UInt16) (offset : Nat)

theorem untruncated_slot : Untruncated (pool.slot index offset) := by
  rw [slot]
  split
  · split
    · exact .malformed Cause.noConfusion
    · exact .ok _
  · exact .malformed Cause.noConfusion

theorem untruncated_rawText : Untruncated (pool.rawText index offset) := by
  refine (untruncated_slot pool index offset).bind fun found => ?_
  cases found <;> first | exact .ok _ | exact .malformed Cause.noConfusion

theorem untruncated_decodeText (raw : Bytes) : Untruncated (decodeText offset raw) := by
  rw [decodeText]
  cases Text.ModifiedUtf8.decode raw with
  | ok text => exact .ok text
  | error pos => exact .malformed Cause.noConfusion

theorem untruncated_text : Untruncated (pool.text index offset) :=
  (untruncated_rawText pool index offset).bind fun found => untruncated_decodeText found.1 found.2

theorem untruncated_className : Untruncated (pool.className index offset) := by
  refine (untruncated_slot pool index offset).bind fun found => ?_
  cases found with
  | classRef nameIndex => exact untruncated_text pool nameIndex offset
  | _ => exact .malformed Cause.noConfusion

end Pool

namespace Cursor

def extend (cursor : Cursor) (more : Bytes) : Cursor := { cursor with rest := cursor.rest ++ more }

def limit (cursor : Cursor) : Nat := cursor.pos + cursor.rest.length

end Cursor

namespace Parser
variable {α β : Type} {p : Parser α} {f : α → Parser β}

/-- Whether `p` answers on more bytes what it answers on fewer, but for an overrun of the bytes that
it is given. -/
structure Local (p : Parser α) : Prop where
  ok : ∀ {cursor a last}, p cursor = .ok (a, last) →
    ∀ more, p (cursor.extend more) = .ok (a, last.extend more)
  stays : ∀ {cursor a last}, p cursor = .ok (a, last) →
    last.limit = cursor.limit ∧ last.overrun = cursor.overrun
  error : ∀ {cursor fault}, p cursor = .error fault →
    (∃ offset ≤ cursor.limit, fault = .malformed offset cursor.overrun) ∨
      ¬ fault.IsTruncation ∧ ∀ more, p (cursor.extend more) = .error fault

theorem Local.pure (a : α) : Local (pure a) where
  ok h more := by
    cases h
    rfl
  stays h := by
    cases h
    exact ⟨rfl, rfl⟩
  error h := by cases h

/-- What holds of every value of `p` may be assumed of what comes after. -/
theorem Local.bind_of {S : α → Prop} (hp : Local p)
    (hvalue : ∀ {cursor a last}, p cursor = .ok (a, last) → S a) (hf : ∀ a, S a → Local (f a)) :
    Local (p >>= f) where
  ok h more := by
    obtain ⟨a, middle, hfirst, hrest⟩ := bind_eq_ok.1 h
    exact bind_eq_ok.2 ⟨a, _, hp.ok hfirst more, (hf a (hvalue hfirst)).ok hrest more⟩
  stays h := by
    obtain ⟨a, middle, hfirst, hrest⟩ := bind_eq_ok.1 h
    obtain ⟨hlimit, hoverrun⟩ := hp.stays hfirst
    obtain ⟨hlimit', hoverrun'⟩ := (hf a (hvalue hfirst)).stays hrest
    exact ⟨hlimit'.trans hlimit, hoverrun'.trans hoverrun⟩
  error {cursor fault} h := by
    rw [run_bind] at h
    cases hfirst : p cursor with
    | error found =>
      rw [hfirst] at h
      cases h
      refine (hp.error hfirst).imp_right fun ⟨hfault, hmore⟩ => ⟨hfault, fun more => ?_⟩
      rw [run_bind, hmore]
      rfl
    | ok result =>
      obtain ⟨a, middle⟩ := result
      rw [hfirst] at h
      -- The bytes end where they did, and running past them is the same fault as before.
      obtain ⟨hlimit, hoverrun⟩ := hp.stays hfirst
      have hrest := (hf a (hvalue hfirst)).error h
      rw [hlimit, hoverrun] at hrest
      refine hrest.imp_right fun ⟨hfault, hmore⟩ => ⟨hfault, fun more => ?_⟩
      rw [run_bind, hp.ok hfirst more]
      exact hmore more

theorem Local.bind (hp : Local p) (hf : ∀ a, Local (f a)) : Local (p >>= f) :=
  hp.bind_of (S := fun _ => True) (fun _ => trivial) fun a _ => hf a

theorem Local.lift {e : Except Fault α} (h : Untruncated e) : Local (liftM e : Parser α) := by
  cases e with
  | ok a => exact .pure a
  | error fault =>
    refine ⟨fun h => (by cases h), fun h => (by cases h), fun {cursor found} hfound => .inr ?_⟩
    cases hfound
    exact ⟨h fault rfl, fun more => rfl⟩

theorem Local.throw {fault : Fault} (h : ¬ fault.IsTruncation) : Local (throw fault : Parser α) :=
  Local.lift fun found hfound => by
    cases hfound
    exact h

theorem Local.failAt {offset : Nat} {cause : Cause} (h : cause ≠ .truncated) :
    Local (failAt offset cause : Parser α) :=
  Local.lift (.malformed h)

theorem Local.position : Local position where
  ok h more := by
    cases h
    rfl
  stays h := by
    cases h
    exact ⟨rfl, rfl⟩
  error h := by cases h

theorem Local.take (n : Nat) : Local (take n) where
  ok {cursor taken last} h more := by
    obtain ⟨hle, rfl, rfl⟩ := le_of_take_eq_ok h
    have hextended : n ≤ (cursor.extend more).rest.length := by
      rw [Cursor.extend, List.length_append]
      omega
    rw [take_of_le hextended]
    simp [Cursor.extend, Cursor.advance, List.take_append_of_le_length hle,
      List.drop_append_of_le_length hle]
  stays {cursor taken last} h := by
    obtain ⟨hle, rfl, rfl⟩ := le_of_take_eq_ok h
    refine ⟨?_, rfl⟩
    simp only [Cursor.limit, Cursor.advance, List.length_drop]
    omega
  error {cursor fault} h := by
    rcases Nat.lt_or_ge cursor.rest.length n with hlt | hle
    · rw [take_of_lt hlt] at h
      cases h
      exact .inl ⟨cursor.pos, Nat.le_add_right _ _, rfl⟩
    · rw [take_of_le hle] at h
      cases h

theorem Local.within {body : Cursor} (hbody : body.overrun ≠ .truncated) (hp : Local p) :
    Local (within body p) where
  ok h more := by
    obtain ⟨rfl, hinner⟩ := within_eq_ok.1 h
    exact within_eq_ok.2 ⟨rfl, hinner⟩
  stays h := by
    obtain ⟨rfl, hinner⟩ := within_eq_ok.1 h
    exact ⟨rfl, rfl⟩
  error {cursor fault} h := by
    have hinner := within_eq_error.1 h
    refine .inr ⟨?_, fun more => within_eq_error.2 hinner⟩
    -- Running past the body is a fault of its own cause, which is not truncation.
    rcases hp.error hinner with ⟨offset, -, rfl⟩ | ⟨hfault, -⟩
    · rintro ⟨found, heq⟩
      injection heq with _ hcause
      exact hbody hcause
    · exact hfault

theorem Local.skip (n : Nat) : Local (skip n) := (Local.take n).bind fun _ => .pure ()

theorem Local.u1 : Local u1 := (Local.take 1).bind fun _ => .pure _

theorem Local.u2 : Local u2 := (Local.take 2).bind fun _ => .pure _

theorem Local.u4 : Local u4 := (Local.take 4).bind fun _ => .pure _

theorem Local.carve (n : Nat) : Local (carve n) :=
  Local.position.bind fun _ => (Local.take n).bind fun _ => .pure _

theorem overrun_of_carve {n : Nat} {cursor body last : Cursor}
    (h : Parser.carve n cursor = .ok (body, last)) : body.overrun = .lengthMismatch := by
  obtain ⟨start, middle, -, h⟩ := bind_eq_ok.1 h
  obtain ⟨taken, middle, -, h⟩ := bind_eq_ok.1 h
  cases h
  rfl

theorem Local.times (hp : Local p) (n : Nat) : Local (times n p) := by
  induction n with
  | zero => exact .pure []
  | succ n ih =>
    rw [times_succ]
    exact hp.bind fun value => ih.bind fun rest => .pure (value :: rest)

theorem Local.counted (hp : Local p) : Local (counted p) :=
  Local.u2.bind fun count => hp.times count.toNat

end Parser

open ClassFile.Parser

namespace Pool

theorem local_readBody (tag : UInt8) (layout : TagLayout) : Local (readBody tag layout) := by
  unfold readBody
  split
  · refine Local.u2.bind fun length => Local.position.bind fun offset => ?_
    exact (Local.take _).bind fun raw => .pure _
  · split
    · exact Local.u2.bind fun nameIndex => .pure _
    · exact (Local.skip _).bind fun _ => .pure _

theorem local_readEntry (major : UInt16) : Local (readEntry major) := by
  refine Local.position.bind fun start => Local.u1.bind fun tag => ?_
  split
  · exact .failAt Cause.noConfusion
  · split
    · exact .failAt Cause.noConfusion
    · exact (local_readBody _ _).bind fun slot => .pure _

theorem local_readEntries (major : UInt16) (left : Nat) (pool : Pool) :
    Local (readEntries major left pool) := by
  induction left using Nat.strongRecOn generalizing pool with
  | ind left ih =>
  cases left with
  | zero => exact .pure pool
  | succ left =>
    rw [readEntries]
    refine Local.position.bind fun start => (local_readEntry major).bind fun ⟨slot, wide⟩ => ?_
    cases wide with
    | false => exact ih left (Nat.lt_succ_self left) _
    | true =>
      cases left with
      | zero => exact .failAt Cause.noConfusion
      | succ left => exact ih left (by omega) _

theorem local_read (major : UInt16) : Local (Pool.read major) :=
  Local.u2.bind fun _ => local_readEntries major _ _

end Pool

namespace Header
variable (pool : Pool)

theorem local_readVersion : Local readVersion := by
  refine Local.position.bind fun start => Local.u4.bind fun number => ?_
  split
  · exact .failAt Cause.noConfusion
  refine Local.u2.bind fun minor => Local.position.bind fun offset => Local.u2.bind fun major => ?_
  split
  · exact .throw fun ⟨_, h⟩ => by cases h
  · split
    · exact .failAt Cause.noConfusion
    · exact .pure _

theorem local_readClassName : Local (readClassName pool) :=
  Local.position.bind fun offset => Local.u2.bind fun index =>
    .lift (Pool.untruncated_className pool index offset)

theorem local_readSuperName (access : AccessFlags) (name : String) :
    Local (readSuperName pool access name) := by
  refine Local.position.bind fun offset => Local.u2.bind fun index => ?_
  split
  · split
    · exact .pure none
    · exact .failAt Cause.noConfusion
  · exact (Local.lift (Pool.untruncated_className pool index offset)).bind fun found => .pure _

theorem local_read : Local Header.read := by
  refine local_readVersion.bind fun version => (Pool.local_read _).bind fun pool => ?_
  refine Local.u2.bind fun access => (local_readClassName pool).bind fun name => ?_
  refine (local_readSuperName pool _ name).bind fun superName => ?_
  exact (local_readClassName pool).counted.bind fun interfaces => .pure _

end Header

namespace AnnotationTable

theorem local_skipValue (levels : Nat) : Local (skipValue levels) := by
  induction levels with
  | zero => exact Local.position.bind fun offset => .failAt Cause.noConfusion
  | succ levels ih =>
    rw [skipValue]
    refine Local.position.bind fun start => Local.u1.bind fun tag => ?_
    split
    · exact .skip 2
    split
    · exact .skip 4
    split
    · refine (Local.skip 2).bind fun _ => Local.u2.bind fun count => ?_
      exact (((Local.skip 2).bind fun _ => ih).times _).bind fun _ => .pure ()
    split
    · exact Local.u2.bind fun count => (ih.times _).bind fun _ => .pure ()
    · exact .failAt Cause.noConfusion

theorem local_skipPairs (levels : Nat) : Local (skipPairs levels) :=
  ((Local.skip 2).bind fun _ => local_skipValue levels).counted.bind fun _ => .pure ()

theorem local_read (pool : Pool) (interest : Interest) :
    Local (AnnotationTable.read pool interest) := by
  have hentry : Local (readEntry pool interest) := by
    refine Local.position.bind fun offset => Local.u2.bind fun index => ?_
    refine (Local.lift (Pool.untruncated_rawText pool index offset)).bind fun found => ?_
    exact (local_skipPairs levels).bind fun _ => .pure _
  exact hentry.counted.bind fun found => .pure _

end AnnotationTable

namespace Outline
variable (pool : Pool) (interest : Interest)

theorem local_readAttribute : Local (readAttribute pool interest) := by
  refine Local.position.bind fun offset => Local.u2.bind fun nameIndex => ?_
  refine Local.u4.bind fun length => (Local.carve _).bind_of overrun_of_carve fun body hbody => ?_
  split
  · exact .pure []
  · refine (Local.lift (Pool.untruncated_rawText pool nameIndex offset)).bind
      fun ⟨start, name⟩ => ?_
    dsimp only
    split
    · exact .within (by rw [hbody]; exact Cause.noConfusion)
        (AnnotationTable.local_read pool interest)
    · exact .pure []

theorem local_readAttributes : Local (readAttributes pool interest) :=
  (local_readAttribute pool interest).counted.bind fun _ => .pure _

theorem local_readText : Local (readText pool) :=
  Local.position.bind fun offset => Local.u2.bind fun index =>
    .lift (Pool.untruncated_text pool index offset)

theorem local_readField : Local (readField pool) := by
  refine Local.u2.bind fun access => (local_readText pool).bind fun name => ?_
  refine (local_readText pool).bind fun descriptor => ?_
  exact (local_readAttributes pool Interest.empty).bind fun _ => .pure _

theorem local_readMethod : Local (readMethod pool interest) := by
  refine Local.u2.bind fun access => (local_readText pool).bind fun name => ?_
  refine (local_readText pool).bind fun descriptor => ?_
  exact (local_readAttributes pool interest).bind fun annotations => .pure _

theorem local_read (header : Header) : Local (Outline.read pool header interest) := by
  refine (local_readField pool).counted.bind fun fields => ?_
  refine (local_readMethod pool interest).counted.bind fun methods => ?_
  exact (local_readAttributes pool interest).bind fun annotations => .pure _

end Outline

/-- Whether the answers of `parse` stand whatever follows the bytes, and a file that ends too soon
is told from all else. -/
structure Steady {α : Type} (parse : Bytes → Except Fault α) : Prop where
  /-- Any answer but that the bytes end too soon is the answer on more bytes. -/
  append : ∀ bytes more, (∀ offset, parse bytes ≠ .error (.malformed offset .truncated)) →
    parse (bytes ++ more) = parse bytes
  offset_le : ∀ bytes offset, parse bytes = .error (.malformed offset .truncated) →
    offset ≤ bytes.length
  /-- The front of a file that parses has the same value, or ends too soon. -/
  front : ∀ front bytes value, front <+: bytes → parse bytes = .ok value →
    parse front = .ok value ∨ ∃ offset, parse front = .error (.malformed offset .truncated)
  /-- What follows a front that parses does not matter. -/
  longer : ∀ front bytes value, front <+: bytes → parse front = .ok value →
    parse bytes = .ok value

theorem Steady.of_append {α : Type} {parse : Bytes → Except Fault α}
    (happend : ∀ bytes more, (∀ offset, parse bytes ≠ .error (.malformed offset .truncated)) →
      parse (bytes ++ more) = parse bytes)
    (hoffset : ∀ bytes offset, parse bytes = .error (.malformed offset .truncated) →
      offset ≤ bytes.length) : Steady parse where
  append := happend
  offset_le := hoffset
  front := by
    rintro front _ value ⟨more, rfl⟩ hvalue
    by_cases htruncated : ∃ offset, parse front = .error (.malformed offset .truncated)
    · exact .inr htruncated
    · rw [not_exists] at htruncated
      exact .inl ((happend front more htruncated).symm.trans hvalue)
  longer := by
    rintro front _ value ⟨more, rfl⟩ hvalue
    rw [happend front more (by simp [hvalue]), hvalue]

theorem Parser.Local.steady {α β : Type} {p : Parser α} (hp : Local p) (f : α → β) :
    Steady fun bytes => (p (Cursor.ofBytes bytes)).map fun result => f result.1 := by
  refine .of_append (fun bytes more h => ?_) fun bytes offset h => ?_
  · have hextend : Cursor.ofBytes (bytes ++ more) = (Cursor.ofBytes bytes).extend more := rfl
    rw [hextend]
    cases hrun : p (Cursor.ofBytes bytes) with
    | ok result => rw [hp.ok hrun more]; rfl
    | error fault =>
      rcases hp.error hrun with ⟨offset, -, rfl⟩ | ⟨-, hmore⟩
      · rw [hrun] at h
        exact absurd rfl (h offset)
      · rw [hmore more]
  · cases hrun : p (Cursor.ofBytes bytes) with
    | ok result =>
      rw [hrun] at h
      cases h
    | error fault =>
      rw [hrun] at h
      cases h
      rcases hp.error hrun with ⟨found, hfound, heq⟩ | ⟨hfault, -⟩
      · cases heq
        rwa [Cursor.limit, Cursor.ofBytes, Nat.zero_add] at hfound
      · exact absurd ⟨offset, rfl⟩ hfault

/-- The answers of both readers stand whatever follows the bytes, unless the bytes end too soon. -/
theorem steady_readers :
    Steady parseHeader ∧ ∀ interest, Steady fun bytes => parseOutline bytes interest := by
  refine ⟨Header.local_read.steady Prod.snd, fun interest => ?_⟩
  simp only [parseOutline_eq]
  exact (Header.local_read.bind fun found =>
    Outline.local_read found.1 interest found.2).steady id

end ClassSieve.ClassFile
