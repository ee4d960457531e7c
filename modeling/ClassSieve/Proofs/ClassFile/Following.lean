import ClassSieve.Proofs.ClassFile.Offsets
import ClassSieve.Proofs.ClassFile.Taking

/-!
# Scanners that follow parsers

A scanner follows a parser when both do the same on one stretch of a file. They read values that
belong together and go on at the same offset, or end in the same fault, whose offset lies in the
file. So a scanner that follows a parser never ends in a breach. Every construct of scanners follows
that of parsers.
-/
namespace ClassSieve.ClassFile

def Fault.AtMost (bound : Nat) : Fault → Prop
  | .malformed offset _ => offset ≤ bound
  | .unsupportedVersion .. => True

namespace Stretch
variable {file : Bytes} {here : Stretch} {n : Nat}

def toCursor (file : Bytes) (stretch : Stretch) : Cursor :=
  ⟨stretch.pos, (file.take stretch.stop).drop stretch.pos, stretch.overrun⟩

@[simp] theorem toCursor_ofFile (file : Bytes) :
    (ofFile file).toCursor file = Cursor.ofBytes file := by
  simp [toCursor, ofFile, Cursor.ofBytes]

@[simp] theorem toCursor_advance (file : Bytes) (here : Stretch) (n : Nat) :
    (here.advance n).toCursor file = (here.toCursor file).advance n := by
  simp [toCursor, advance, Cursor.advance]

theorem inFile_ofFile (file : Bytes) : (ofFile file).InFile file :=
  ⟨Nat.zero_le _, Nat.le_refl _⟩

theorem InFile.pos_le (h : here.InFile file) : here.pos ≤ file.length := Nat.le_trans h.1 h.2

theorem InFile.advance (h : here.InFile file) (hn : n ≤ here.stop - here.pos) :
    (here.advance n).InFile file := by
  obtain ⟨hpos, hstop⟩ := h
  exact ⟨by dsimp only [Stretch.advance]; omega, hstop⟩

theorem InFile.length_rest (h : here.InFile file) :
    (here.toCursor file).rest.length = here.stop - here.pos := by
  rw [toCursor, List.length_drop, List.length_take_of_le h.2]

end Stretch

namespace Scanner
variable {α β γ δ : Type} {file : Bytes} {pos n : Nat} {scan : Scanner β} {p : Parser α}
  {g : β → Scanner δ} {f : α → Parser γ} {R : Nat → α → β → Prop} {S : Nat → γ → δ → Prop}

/-- Outcomes whose values are related by `R`, which may speak of the offset where both go on. -/
inductive Same (file : Bytes) (pos : Nat) (R : Nat → α → β → Prop) :
    Except Fault (α × Cursor) → Except Halt (β × Stretch) → Prop
  | ok {a : α} {b : β} {there : Stretch} (hfile : there.InFile file) (hpos : pos ≤ there.pos)
    (hvalue : R there.pos a b) : Same file pos R (.ok (a, there.toCursor file)) (.ok (b, there))
  | fault {fault : Fault} (hfault : fault.AtMost file.length) :
    Same file pos R (.error fault) (.error (.fault fault))

def Follows (file : Bytes) (pos : Nat) (scan : Scanner β) (p : Parser α)
    (R : Nat → α → β → Prop) : Prop :=
  ∀ here : Stretch, here.InFile file → here.pos = pos →
    Same file pos R (p (here.toCursor file)) (scan here)

def Tracks (file : Bytes) (pos : Nat) (scan : Scanner α) (p : Parser α) : Prop :=
  Follows file pos scan p fun _ a b => b = a

/-- An access and the check that stands for it, which answer the same value or the same fault. -/
inductive Agrees (bound : Nat) (P : α → Prop) : Except Fault α → Except Halt α → Prop
  | ok {a : α} (h : P a) : Agrees bound P (.ok a) (.ok a)
  | fault {fault : Fault} (h : fault.AtMost bound) :
    Agrees bound P (.error fault) (.error (.fault fault))

theorem run_bind (scan : Scanner β) (g : β → Scanner δ) (here : Stretch) :
    (scan >>= g) here = (scan here).bind fun result => g result.1 result.2 := rfl

theorem require_of {q : Prop} [Decidable q] (hq : q) : require q = .ok () := if_pos hq

theorem Same.weaken {first : Nat} {x : Except Fault (α × Cursor)} {y : Except Halt (β × Stretch)}
    (h : Same file pos R x y) (hfirst : first ≤ pos) : Same file first R x y := by
  cases h with
  | ok hfile hpos hvalue => exact .ok hfile (Nat.le_trans hfirst hpos) hvalue
  | fault hfault => exact .fault hfault

namespace Follows

theorem of_le (h : pos ≤ file.length → Follows file pos scan p R) : Follows file pos scan p R :=
  fun here hfile hpos => h (hpos ▸ hfile.pos_le) here hfile hpos

theorem pure {a : α} {b : β} (h : R pos a b) :
    Follows file pos (Pure.pure b) (Pure.pure a) R := by
  rintro here hfile rfl
  exact .ok hfile (Nat.le_refl _) h

theorem bind (h : Follows file pos scan p R)
    (hrest : ∀ next a b, pos ≤ next → R next a b → Follows file next (g b) (f a) S) :
    Follows file pos (scan >>= g) (p >>= f) S := by
  intro here hfile hpos
  have hfirst := h here hfile hpos
  rw [run_bind, Parser.run_bind]
  generalize p (here.toCursor file) = x, scan here = y at hfirst
  cases hfirst with
  | ok hfile hle hvalue => exact (hrest _ _ _ hle hvalue _ hfile rfl).weaken hle
  | fault hfault => exact .fault hfault

theorem mono {R' : Nat → α → β → Prop} (h : Follows file pos scan p R)
    (hR : ∀ next a b, R next a b → R' next a b) : Follows file pos scan p R' := by
  rw [← bind_pure scan, ← bind_pure p]
  exact h.bind fun next a b _ hvalue => pure (hR next a b hvalue)

theorem ite {q : Prop} [Decidable q] {scan' : Scanner β} {p' : Parser α}
    (h : q → Follows file pos scan p R) (h' : ¬ q → Follows file pos scan' p' R) :
    Follows file pos (if q then scan else scan') (if q then p else p') R := by
  by_cases hq : q
  · rw [if_pos hq, if_pos hq]
    exact h hq
  · rw [if_neg hq, if_neg hq]
    exact h' hq

theorem failAt {offset : Nat} {cause : Cause} (h : offset ≤ file.length) :
    Follows file pos (Scanner.failAt offset cause) (Parser.failAt offset cause) R := by
  intro here _ _
  have hfault : Fault.AtMost file.length (.malformed offset cause) := h
  exact .fault hfault

theorem throw {fault : Fault} (h : fault.AtMost file.length) :
    Follows file pos (MonadExcept.throw (.fault fault)) (MonadExcept.throw fault) R := by
  intro here _ _
  exact .fault h

theorem scan_position {g : Nat → Scanner β} (h : Follows file pos (g pos) p R) :
    Follows file pos (Scanner.position >>= g) p R := by
  rintro here hfile rfl
  exact h here hfile rfl

theorem parse_position {f : Nat → Parser α} (h : Follows file pos scan (f pos) R) :
    Follows file pos scan (Parser.position >>= f) R := by
  rintro here hfile rfl
  exact h here hfile rfl

theorem position {f : Nat → Parser γ} {g : Nat → Scanner δ}
    (h : pos ≤ file.length → Follows file pos (g pos) (f pos) S) :
    Follows file pos (Scanner.position >>= g) (Parser.position >>= f) S :=
  of_le fun hle => scan_position (parse_position (h hle))

theorem require {q : Prop} [Decidable q] (hq : q) {g : Unit → Scanner β}
    (h : Follows file pos (g ()) p R) :
    Follows file pos ((liftM (Scanner.require q) : Scanner Unit) >>= g) p R := by
  rw [require_of hq]
  exact h

theorem take (n : Nat) : Follows file pos (Scanner.take file n) (Parser.take n)
    fun next a b => b = a ∧ next = pos + n ∧ next ≤ file.length ∧ a = (file.drop pos).take n := by
  rintro here hfile rfl
  have hlength := hfile.length_rest
  rw [Scanner.take]
  split
  · next hshort =>
    rw [Parser.take_of_lt (hlength ▸ hshort)]
    exact .fault hfile.pos_le
  · next henough =>
    have hle := Nat.not_lt.1 henough
    have htaken : (here.toCursor file).rest.take n = (file.drop here.pos).take n := by
      rw [Stretch.toCursor, List.drop_take, List.take_take, Nat.min_eq_left hle]
    have hthere := hfile.advance hle
    rw [Parser.take_of_le (hlength ▸ hle), htaken, ← Stretch.toCursor_advance, require_of hthere]
    exact .ok hthere (Nat.le_add_right _ _) ⟨rfl, rfl, hthere.pos_le, rfl⟩

theorem skip_take (n : Nat) : Follows file pos (Scanner.skip file n) (Parser.take n)
    fun next a _ => next = pos + n ∧ next ≤ file.length ∧ a = (file.drop pos).take n := by
  rw [← bind_pure (Parser.take n)]
  exact (take n).bind fun _ _ _ _ htaken => pure htaken.2

theorem u2 : Follows file pos (Scanner.u2 file) Parser.u2
    fun next a b => b = a ∧ next = pos + 2 ∧ a.toNat = lengthAt file pos := by
  refine (take 2).bind fun next bytes bytes' _ htaken => pure ?_
  obtain ⟨rfl, rfl, hle, rfl⟩ := htaken
  have hlength : ((file.drop pos).take 2).length = 2 := by
    rw [List.length_take, List.length_drop]
    omega
  refine ⟨rfl, rfl, ?_⟩
  rw [← bigEndian_encodeU2, encodeU2_bigEndian hlength, lengthAt]

theorem carve (n : Nat) : Follows file pos (Scanner.carve file n) (Parser.carve n)
    fun _ cursor body => body.InFile file ∧ cursor = body.toCursor file := by
  refine .position fun _ => (skip_take n).bind fun next bytes _ _ htaken => ?_
  obtain ⟨rfl, hle, rfl⟩ := htaken
  have hbody : Stretch.InFile file ⟨pos, pos + n, .lengthMismatch⟩ := ⟨Nat.le_add_right _ _, hle⟩
  refine .require hbody (pure ⟨hbody, ?_⟩)
  rw [Stretch.toCursor, List.drop_take, Nat.add_sub_cancel_left]

theorem lift {P : α → Prop} {x : Except Fault α} {y : Except Halt α}
    (h : Agrees file.length P x y) :
    Follows file pos (liftM y) (liftM x) fun _ a b => b = a ∧ P a := by
  cases h with
  | ok h => exact pure ⟨rfl, h⟩
  | fault h => exact throw h

end Follows

namespace Tracks
variable {scan : Scanner α} {g : α → Scanner δ}

theorem bind (h : Tracks file pos scan p)
    (hrest : ∀ next a, pos ≤ next → Follows file next (g a) (f a) S) :
    Follows file pos (scan >>= g) (p >>= f) S := by
  refine Follows.bind h fun next a b hle hvalue => ?_
  rw [hvalue]
  exact hrest next a hle

theorem pure (a : α) : Tracks file pos (Pure.pure a) (Pure.pure a) := Follows.pure rfl

theorem take (n : Nat) : Tracks file pos (Scanner.take file n) (Parser.take n) :=
  (Follows.take n).mono fun _ _ _ h => h.1

theorem skip (n : Nat) : Tracks file pos (Scanner.skip file n) (Parser.skip n) :=
  (take n).bind fun _ _ _ => pure ()

theorem u1 : Tracks file pos (Scanner.u1 file) Parser.u1 :=
  (take 1).bind fun _ _ _ => pure _

theorem u2 : Tracks file pos (Scanner.u2 file) Parser.u2 :=
  (take 2).bind fun _ _ _ => pure _

theorem u4 : Tracks file pos (Scanner.u4 file) Parser.u4 :=
  (take 4).bind fun _ _ _ => pure _

theorem lift {P : α → Prop} {x : Except Fault α} {y : Except Halt α}
    (h : Agrees file.length P x y) : Tracks file pos (liftM y) (liftM x) :=
  (Follows.lift h).mono fun _ _ _ h => h.1

theorem times (h : ∀ pos, Tracks file pos scan p) (n : Nat) :
    Tracks file pos (Scanner.times n scan) (Parser.times n p) := by
  induction n generalizing pos with
  | zero => exact pure []
  | succ n ih =>
    rw [Scanner.times, Parser.times_succ]
    exact (h pos).bind fun _ _ _ => ih.bind fun _ _ _ => pure _

theorem counted (h : ∀ pos, Tracks file pos scan p) :
    Tracks file pos (Scanner.counted file scan) (Parser.counted p) :=
  u2.bind fun _ count _ => times h count.toNat

theorem within {body : Stretch} (hbody : body.InFile file) (h : Tracks file body.pos scan p) :
    Tracks file pos (Scanner.within body scan) (Parser.within (body.toCursor file) p) := by
  rintro here hfile rfl
  have hinner := h body hbody rfl
  rw [Scanner.within, Parser.within]
  generalize p (body.toCursor file) = x, scan body = y at hinner
  cases hinner with
  | ok _ _ hvalue => exact .ok hfile (Nat.le_refl _) hvalue
  | fault hfault => exact .fault hfault

end Tracks

namespace Agrees
variable {bound : Nat} {P : α → Prop} {x : Except Fault α} {y : Except Halt α}

theorem bind {Q : γ → Prop} {f : α → Except Fault γ} {g : α → Except Halt γ}
    (h : Agrees bound P x y) (hrest : ∀ a, P a → Agrees bound Q (f a) (g a)) :
    Agrees bound Q (x >>= f) (y >>= g) := by
  cases h with
  | ok h => exact hrest _ h
  | fault h => exact .fault h

theorem mapError (h : ∀ fault, x = .error fault → fault.AtMost bound) :
    Agrees bound (fun _ => True) x (x.mapError .fault) := by
  cases x with
  | ok a => exact .ok trivial
  | error fault => exact .fault (h fault rfl)

theorem eq_mapError (h : Agrees bound P x y) : y = x.mapError .fault := by
  cases h <;> rfl

theorem ne_breach (h : Agrees bound P x y) : y ≠ .error .breach := by
  cases h <;> nofun

theorem offset_le {offset : Nat} {cause : Cause} (h : Agrees bound P x y)
    (hx : x = .error (.malformed offset cause)) : offset ≤ bound := by
  subst hx
  cases h with
  | fault hfault => exact hfault

end Agrees

theorem Follows.agrees {u : α → γ} {v : β → γ} (h : Follows file 0 scan p R)
    (huv : ∀ next a b, R next a b → v b = u a) :
    Agrees file.length (fun _ => True) ((p (Cursor.ofBytes file)).map fun result => u result.1)
      ((scan (Stretch.ofFile file)).map fun result => v result.1) := by
  have hsame := h _ (Stretch.inFile_ofFile file) rfl
  rw [Stretch.toCursor_ofFile] at hsame
  generalize p (Cursor.ofBytes file) = x, scan (Stretch.ofFile file) = y at hsame
  cases hsame with
  | ok _ _ hvalue =>
    rw [Except.map, Except.map, huv _ _ _ hvalue]
    exact .ok trivial
  | fault hfault => exact .fault hfault
end Scanner

end ClassSieve.ClassFile
