import ClassSieve.Proofs.ClassFile.Parsers
import Mathlib.Data.List.Forall2

/-!
# Reading what was written

`Reads p pos bytes a` says that `p` reads the value `a` from `bytes` where they stand at the offset
`pos`, and goes no further whatever follows them. `Fails p pos bytes fault` says that `p` fails on
them, again whatever follows.
-/
namespace ClassSieve.ClassFile.Parser
variable {α β : Type} {pos : Nat} {bytes more : Bytes} {a : α} {b : β} {p : Parser α}
  {f : α → Parser β}

def Reads (p : Parser α) (pos : Nat) (bytes : Bytes) (a : α) : Prop :=
  ∀ rest overrun, p ⟨pos, bytes ++ rest, overrun⟩ = .ok (a, ⟨pos + bytes.length, rest, overrun⟩)

theorem Reads.pure (a : α) : Reads (pure a) pos [] a := fun _ _ => rfl

theorem Reads.bind (hp : Reads p pos bytes a) (hf : Reads (f a) (pos + bytes.length) more b) :
    Reads (p >>= f) pos (bytes ++ more) b := by
  intro rest overrun
  rw [List.append_assoc, List.length_append, ← Nat.add_assoc]
  exact bind_eq_ok.2 ⟨a, _, hp _ _, hf _ _⟩

theorem Reads.bind_last (hp : Reads p pos bytes a) (hf : Reads (f a) (pos + bytes.length) [] b) :
    Reads (p >>= f) pos bytes b := by
  have hbind := hp.bind hf
  rwa [List.append_nil] at hbind

theorem Reads.map {g : α → β} (hp : Reads p pos bytes a) :
    Reads (p >>= fun x => Pure.pure (g x)) pos bytes (g a) :=
  hp.bind_last (.pure (g a))

theorem Reads.position {f : Nat → Parser β} (hf : Reads (f pos) pos bytes b) :
    Reads (position >>= f) pos bytes b := hf

theorem Reads.lift {e : Except Fault α} (he : e = .ok a) (hf : Reads (f a) pos bytes b) :
    Reads (liftM e >>= f) pos bytes b := by
  intro rest overrun
  refine bind_eq_ok.2 ⟨a, _, ?_, hf rest overrun⟩
  rw [he]
  rfl

theorem Reads.take (bytes : Bytes) {n : Nat} (hn : bytes.length = n) :
    Reads (take n) pos bytes bytes := by
  subst hn
  intro rest overrun
  simp [Parser.take, Cursor.advance]

theorem Reads.skip (bytes : Bytes) {n : Nat} (hn : bytes.length = n) :
    Reads (skip n) pos bytes () :=
  (Reads.take bytes hn).map

theorem Reads.u1 (n : UInt8) : Reads u1 pos [n] n := by
  have hn : UInt8.ofNat (bigEndian [n]) = n := by simp [bigEndian]
  have hread : Reads Parser.u1 pos [n] (UInt8.ofNat (bigEndian [n])) := (Reads.take [n] rfl).map
  rwa [hn] at hread

theorem Reads.u1_bind {n : UInt8} {f : UInt8 → Parser β} (hf : Reads (f n) (pos + 1) bytes b) :
    Reads (Parser.u1 >>= f) pos (n :: bytes) b :=
  Reads.bind (.u1 n) hf

theorem Reads.u2 (n : UInt16) : Reads u2 pos (encodeU2 n) n := by
  have hread : Reads Parser.u2 pos (encodeU2 n) (UInt16.ofNat (bigEndian (encodeU2 n))) :=
    (Reads.take (encodeU2 n) rfl).map
  rwa [bigEndian_encodeU2, UInt16.ofNat_toNat] at hread

theorem Reads.u4 (n : UInt32) : Reads u4 pos (encodeU4 n) n := by
  have hread : Reads Parser.u4 pos (encodeU4 n) (UInt32.ofNat (bigEndian (encodeU4 n))) :=
    (Reads.take (encodeU4 n) rfl).map
  rwa [bigEndian_encodeU4, UInt32.ofNat_toNat] at hread

theorem Reads.carve (body : Bytes) {n : Nat} (hn : body.length = n) :
    Reads (carve n) pos body ⟨pos, body, .lengthMismatch⟩ :=
  .position (Reads.take body hn).map

theorem Reads.within {start : Nat} {extra : Bytes} {overrun : Cause} (hp : Reads p start bytes a) :
    Reads (within ⟨start, bytes ++ extra, overrun⟩ p) pos [] a := by
  intro rest outer
  rw [Parser.within, hp extra overrun]
  rfl

theorem Reads.times {parts : List Bytes} {values : List α} (h : List.Forall₂
      (fun bytes a => ∀ pos, Reads p pos bytes a) parts values) {n : Nat} (hn : parts.length = n) :
    Reads (times n p) pos parts.flatten values := by
  subst hn
  induction h generalizing pos with
  | nil => exact .pure []
  | cons hfirst _ ih =>
    rw [List.length_cons, times_succ, List.flatten_cons]
    exact (hfirst pos).bind ih.map

theorem Reads.counted {parts : List Bytes} {values : List α} (h : List.Forall₂
      (fun bytes a => ∀ pos, Reads p pos bytes a) parts values) (hlength : parts.length ≤ 65535) :
    Reads (counted p) pos (encodeU2 (UInt16.ofNat parts.length) ++ parts.flatten) values := by
  refine (Reads.u2 _).bind (Reads.times h ?_)
  rw [UInt16.toNat_ofNat']
  omega

section
variable {fault : Fault}

def Fails (p : Parser α) (pos : Nat) (bytes : Bytes) (fault : Fault) : Prop :=
  ∀ rest overrun, p ⟨pos, bytes ++ rest, overrun⟩ = .error fault

theorem Fails.failAt (offset : Nat) (cause : Cause) :
    Fails (failAt offset cause : Parser α) pos bytes (.malformed offset cause) := fun _ _ => rfl

theorem Fails.bind (hp : Fails p pos bytes fault) : Fails (p >>= f) pos bytes fault := by
  intro rest overrun
  rw [run_bind, hp]
  rfl

theorem Fails.append (hp : Fails p pos bytes fault) (more : Bytes) :
    Fails p pos (bytes ++ more) fault := by
  intro rest overrun
  rw [List.append_assoc]
  exact hp _ _

theorem Fails.position {f : Nat → Parser β} (hf : Fails (f pos) pos bytes fault) :
    Fails (Parser.position >>= f) pos bytes fault := hf

theorem Reads.fails (hp : Reads p pos bytes a) (hf : Fails (f a) (pos + bytes.length) more fault) :
    Fails (p >>= f) pos (bytes ++ more) fault := by
  intro rest overrun
  rw [List.append_assoc, run_bind, hp]
  exact hf _ _

theorem Reads.fails_last (hp : Reads p pos bytes a)
    (hf : Fails (f a) (pos + bytes.length) [] fault) : Fails (p >>= f) pos bytes fault := by
  have hfails := hp.fails hf
  rwa [List.append_nil] at hfails

end

end ClassSieve.ClassFile.Parser
