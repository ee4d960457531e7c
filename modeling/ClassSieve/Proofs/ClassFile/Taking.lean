import ClassSieve.Proofs.ClassFile.Parsers
import Mathlib.Data.List.Forall2

/-!
# What was read

`Takes p pos G` says that what `p` reads at the offset `pos`, when it succeeds, is the front of the
bytes before it, and that `G` relates this front to the value. It is the converse of `Reads`, which
says what `p` succeeds on.
-/
namespace ClassSieve.ClassFile

theorem encodeU2_bigEndian {bytes : Bytes} (h : bytes.length = 2) :
    encodeU2 (UInt16.ofNat (bigEndian bytes)) = bytes := by
  obtain ⟨a, b, rfl⟩ := List.length_eq_two.1 h
  have ha := a.toNat_lt
  have hb := b.toNat_lt
  have hvalue : (UInt16.ofNat (bigEndian [a, b])).toNat = 256 * a.toNat + b.toNat := by
    rw [UInt16.toNat_ofNat']
    simp [bigEndian]
    omega
  simp only [encodeU2, hvalue, List.cons.injEq, and_true]
  constructor
  · apply UInt8.toNat_inj.1
    rw [UInt8.toNat_ofNat']
    omega
  · apply UInt8.toNat_inj.1
    rw [UInt8.toNat_ofNat']
    omega

theorem encodeU4_bigEndian {bytes : Bytes} (h : bytes.length = 4) :
    encodeU4 (UInt32.ofNat (bigEndian bytes)) = bytes := by
  match bytes, h with
  | [a, b, c, d], _ =>
  have ha := a.toNat_lt
  have hb := b.toNat_lt
  have hc := c.toNat_lt
  have hd := d.toNat_lt
  have hvalue : (UInt32.ofNat (bigEndian [a, b, c, d])).toNat =
      0x1000000 * a.toNat + 0x10000 * b.toNat + 0x100 * c.toNat + d.toNat := by
    rw [UInt32.toNat_ofNat']
    simp [bigEndian]
    omega
  simp only [encodeU4, hvalue, List.cons.injEq, and_true]
  refine ⟨?_, ?_, ?_, ?_⟩ <;> apply UInt8.toNat_inj.1 <;> rw [UInt8.toNat_ofNat'] <;> omega

namespace Parser
variable {α β : Type} {pos : Nat} {p : Parser α} {f : α → Parser β} {G : Bytes → α → Prop}
  {H : Bytes → β → Prop}

def Takes (p : Parser α) (pos : Nat) (G : Bytes → α → Prop) : Prop :=
  ∀ ⦃rest overrun a last⦄, p ⟨pos, rest, overrun⟩ = .ok (a, last) →
    ∃ bytes more, rest = bytes ++ more ∧ last = ⟨pos + bytes.length, more, overrun⟩ ∧ G bytes a

theorem Takes.pure {a : α} (h : G [] a) : Takes (pure a) pos G := by
  intro rest overrun b last hok
  cases hok
  exact ⟨[], rest, rfl, rfl, h⟩

theorem Takes.bind (hp : Takes p pos G)
    (hf : ∀ bytes a, G bytes a → Takes (f a) (pos + bytes.length) fun more => H (bytes ++ more)) :
    Takes (p >>= f) pos H := by
  intro rest overrun b last hok
  obtain ⟨a, middle, hp', hf'⟩ := bind_eq_ok.1 hok
  obtain ⟨bytes, rest, rfl, rfl, hG⟩ := hp hp'
  obtain ⟨more, rest, rfl, rfl, hH⟩ := hf bytes a hG hf'
  exact ⟨bytes ++ more, rest, (List.append_assoc ..).symm,
    by rw [List.length_append, Nat.add_assoc], hH⟩

theorem Takes.mono {G' : Bytes → α → Prop} (hp : Takes p pos G)
    (h : ∀ bytes a, G bytes a → G' bytes a) : Takes p pos G' := by
  intro rest overrun a last hok
  obtain ⟨bytes, more, hrest, hlast, hG⟩ := hp hok
  exact ⟨bytes, more, hrest, hlast, h bytes a hG⟩

theorem Takes.position {f : Nat → Parser β} (hf : Takes (f pos) pos H) :
    Takes (position >>= f) pos H := hf

theorem Takes.lift {e : Except Fault α} :
    Takes (liftM e) pos fun bytes a => bytes = [] ∧ e = .ok a := by
  intro rest overrun a last hok
  cases e with
  | error fault => cases hok
  | ok found =>
    cases hok
    exact ⟨[], rest, rfl, rfl, rfl, rfl⟩

theorem Takes.failAt {offset : Nat} {cause : Cause} : Takes (failAt offset cause) pos G := by
  intro rest overrun a last hok
  cases hok

theorem Takes.throw {fault : Fault} : Takes (throw fault) pos G := by
  intro rest overrun a last hok
  cases hok

theorem Takes.take (n : Nat) :
    Takes (take n) pos fun bytes taken => bytes = taken ∧ bytes.length = n := by
  intro rest overrun taken last hok
  obtain ⟨hle, rfl, rfl⟩ := le_of_take_eq_ok hok
  have hn : (rest.take n).length = n := List.length_take_of_le hle
  exact ⟨rest.take n, rest.drop n, (List.take_append_drop n rest).symm, by rw [hn]; rfl, rfl, hn⟩

theorem Takes.skip (n : Nat) : Takes (skip n) pos fun bytes _ => bytes.length = n := by
  refine (Takes.take n).bind fun bytes taken h => .pure ?_
  rw [List.append_nil, h.2]

theorem Takes.u1 : Takes u1 pos fun bytes n => bytes = [n] := by
  refine (Takes.take 1).bind fun bytes taken h => .pure ?_
  obtain ⟨rfl, hlength⟩ := h
  obtain ⟨a, rfl⟩ := List.length_eq_one_iff.1 hlength
  simp [bigEndian]

theorem Takes.u2 : Takes u2 pos fun bytes n => bytes = encodeU2 n := by
  refine (Takes.take 2).bind fun bytes taken h => .pure ?_
  obtain ⟨rfl, hlength⟩ := h
  rw [List.append_nil, encodeU2_bigEndian hlength]

theorem Takes.u4 : Takes u4 pos fun bytes n => bytes = encodeU4 n := by
  refine (Takes.take 4).bind fun bytes taken h => .pure ?_
  obtain ⟨rfl, hlength⟩ := h
  rw [List.append_nil, encodeU4_bigEndian hlength]

theorem Takes.u2_bind {f : UInt16 → Parser β}
    (hf : ∀ n, Takes (f n) (pos + 2) fun more => H (encodeU2 n ++ more)) :
    Takes (Parser.u2 >>= f) pos H :=
  Takes.u2.bind fun _ n hn => hn ▸ hf n

theorem Takes.times (hp : ∀ pos, Takes p pos G) (n : Nat) :
    Takes (times n p) pos fun bytes values => ∃ parts : List Bytes,
      bytes = parts.flatten ∧ parts.length = n ∧ List.Forall₂ G parts values := by
  induction n generalizing pos with
  | zero => exact .pure ⟨[], rfl, rfl, .nil⟩
  | succ n ih =>
    rw [times_succ]
    refine (hp pos).bind fun first a hfirst => ih.bind ?_
    rintro _ values ⟨parts, rfl, rfl, hparts⟩
    exact .pure ⟨first :: parts, by simp, rfl, .cons hfirst hparts⟩

theorem Takes.counted (hp : ∀ pos, Takes p pos G) :
    Takes (counted p) pos fun bytes values => ∃ parts : List Bytes, parts.length ≤ 65535 ∧
      bytes = encodeU2 (UInt16.ofNat parts.length) ++ parts.flatten ∧
      List.Forall₂ G parts values := by
  refine .u2_bind fun count => (Takes.times hp _).mono ?_
  rintro _ values ⟨parts, rfl, hlength, hparts⟩
  have hcount := count.toNat_lt
  refine ⟨parts, by omega, ?_, hparts⟩
  rw [hlength, UInt16.ofNat_toNat]

end Parser

end ClassSieve.ClassFile
