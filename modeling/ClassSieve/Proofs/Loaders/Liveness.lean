import ClassSieve.Loaders
import Mathlib.Algebra.Group.Nat.Defs
import Mathlib.Data.List.Nodup

/-!
# The life of a loader

A key is live from its registration to its retirement, and never again. The generation of a slot
counts its retirements, of which there are no more than registrations; so as long as these are fewer
than the generations that there are, a slot does not come back to a generation that it has left.
-/
namespace ClassSieve

namespace Loaders
variable {loaders : Loaders} {key other : LoaderKey} {registrations : Nat}

theorem isLive_iff : loaders.isLive key = true ↔
    loaders.slots[key.slot]? = some ⟨key.generation, true⟩ := by
  rw [isLive]
  cases hslot : loaders.slots[key.slot]? with
  | none => simp
  | some held =>
    obtain ⟨generation, live⟩ := held
    simp only [Bool.and_eq_true, decide_eq_true_eq, Option.some.injEq, LoaderSlot.mk.injEq]
    tauto

/-- The slot of a key has gone on to a later generation. -/
def Ended (loaders : Loaders) (key : LoaderKey) : Prop :=
  ∃ held, loaders.slots[key.slot]? = some held ∧ key.generation.toNat < held.generation.toNat

theorem Ended.isLive_eq_false (h : loaders.Ended key) : loaders.isLive key = false := by
  obtain ⟨held, hheld, hlt⟩ := h
  rw [Bool.eq_false_iff]
  intro hlive
  rw [isLive_iff, hheld] at hlive
  cases hlive
  exact Nat.lt_irrefl _ hlt

/-- The slot of the boot loader is taken, and the free slots are idle. -/
structure Tidy (loaders : Loaders) : Prop where
  boot : loaders.slots[0]? = some ⟨0, true⟩
  free_idle : ∀ {slot}, slot ∈ loaders.free →
    ∃ generation, loaders.slots[slot]? = some ⟨generation, false⟩
  free_nodup : loaders.free.Nodup

/-- Loaders that have been registered so many times. -/
structure Sound (registrations : Nat) (loaders : Loaders) : Prop extends Tidy loaders where
  /-- A slot other than the first is registered once more than it is retired while it is live. -/
  turns : ∀ {slot held}, loaders.slots[slot]? = some held → slot ≠ 0 →
    held.generation.toNat + (if held.live then 1 else 0) ≤ registrations

theorem tidy_initial : initial.Tidy where
  boot := rfl
  free_idle h := nomatch h
  free_nodup := List.nodup_nil

theorem sound_initial : Sound 0 initial where
  toTidy := tidy_initial
  turns {slot held} h hne := by
    have hnone : initial.slots[slot]? = none := by
      apply Array.getElem?_eq_none
      change 1 ≤ slot
      omega
    rw [hnone] at h
    cases h

theorem Tidy.slot_ne_zero (h : loaders.Tidy) (hlive : loaders.isLive key = true)
    (hboot : key ≠ .boot) : key.slot ≠ 0 := by
  intro hzero
  apply hboot
  rw [isLive_iff, hzero, h.boot] at hlive
  obtain ⟨slot, generation⟩ := key
  cases hlive
  cases hzero
  rfl

/-! ## Registering -/

/-- A new key: its slot is new, or was freed and waits in the generation of the key. -/
inductive Fresh (loaders : Loaders) : LoaderKey → Loaders → Prop
  | reused {slot : Nat} {free : List Nat} {generation : UInt32}
      (first : loaders.free = slot :: free)
      (idle : loaders.slots[slot]? = some ⟨generation, false⟩) :
      Fresh loaders ⟨slot, generation⟩
        { loaders with
          slots := loaders.slots.modify slot fun held => { held with live := true }
          free }
  | added (full : loaders.free = []) :
      Fresh loaders ⟨loaders.slots.size, 0⟩ { loaders with slots := loaders.slots.push ⟨0, true⟩ }

theorem Tidy.fresh_register (h : loaders.Tidy) :
    loaders.Fresh loaders.register.1 loaders.register.2 := by
  rw [register]
  cases hfree : loaders.free with
  | nil =>
    have hadded := Fresh.added hfree
    rwa [hfree] at hadded
  | cons slot free =>
    obtain ⟨generation, hidle⟩ := h.free_idle (hfree ▸ List.mem_cons_self)
    simp only [hidle]
    exact .reused hfree hidle

variable {after : Loaders}

theorem Fresh.slots (h : loaders.Fresh key after) (slot : Nat) :
    after.slots[slot]? =
      if slot = key.slot then some ⟨key.generation, true⟩ else loaders.slots[slot]? := by
  cases h with
  | @reused reused free generation first idle =>
    change (loaders.slots.modify reused _)[slot]? = _
    rw [Array.getElem?_modify]
    by_cases heq : reused = slot
    · subst heq
      rw [if_pos rfl, if_pos rfl, idle]
      rfl
    · rw [if_neg heq, if_neg (Ne.symm heq)]
  | added full => exact Array.getElem?_push

theorem Fresh.epoch (h : loaders.Fresh key after) : after.epoch = loaders.epoch := by
  cases h <;> rfl

theorem Fresh.idle (h : loaders.Fresh key after) :
    loaders.slots[key.slot]? = some ⟨key.generation, false⟩ ∨
      loaders.slots[key.slot]? = none ∧ key.generation = 0 := by
  cases h with
  | reused first idle => exact Or.inl idle
  | added full => exact Or.inr ⟨Array.getElem?_eq_none (Nat.le_refl _), rfl⟩

theorem Fresh.isLive (h : loaders.Fresh key after) : after.isLive key = true := by
  rw [isLive_iff, h.slots, if_pos rfl]

theorem Fresh.not_isLive (h : loaders.Fresh key after) : loaders.isLive key = false := by
  rw [Bool.eq_false_iff]
  intro hlive
  rw [isLive_iff] at hlive
  rcases h.idle with hidle | ⟨hnone, -⟩
  · cases hlive.symm.trans hidle
  · cases hlive.symm.trans hnone

theorem Fresh.not_ended (h : loaders.Fresh key after) : ¬ loaders.Ended key := by
  rintro ⟨held, hheld, hlt⟩
  rcases h.idle with hidle | ⟨hnone, -⟩
  · cases hheld.symm.trans hidle
    exact Nat.lt_irrefl _ hlt
  · cases hheld.symm.trans hnone

theorem Fresh.keeps_live (h : loaders.Fresh key after) (hlive : loaders.isLive other = true) :
    after.isLive other = true := by
  rw [isLive_iff] at hlive ⊢
  rw [h.slots]
  split
  · next heq =>
    rw [heq] at hlive
    rcases h.idle with hidle | ⟨hnone, -⟩
    · have hclash := hlive.symm.trans hidle
      simp at hclash
    · cases hlive.symm.trans hnone
  · exact hlive

theorem Fresh.keeps_ended (h : loaders.Fresh key after) (hended : loaders.Ended other) :
    after.Ended other := by
  obtain ⟨held, hheld, hlt⟩ := hended
  rw [Ended, h.slots]
  split
  · next heq =>
    rw [heq] at hheld
    rcases h.idle with hidle | ⟨hnone, -⟩
    · cases hheld.symm.trans hidle
      exact ⟨_, rfl, hlt⟩
    · cases hheld.symm.trans hnone
  · exact ⟨held, hheld, hlt⟩

theorem Fresh.slot_ne_zero (h : loaders.Fresh key after) (htidy : loaders.Tidy) :
    key.slot ≠ 0 := by
  intro hzero
  rcases h.idle with hidle | ⟨hnone, -⟩
  · rw [hzero, htidy.boot] at hidle
    simp at hidle
  · rw [hzero, htidy.boot] at hnone
    cases hnone

theorem Fresh.mem_free (h : loaders.Fresh key after) (htidy : loaders.Tidy)
    {slot : Nat} (hslot : slot ∈ after.free) : slot ∈ loaders.free ∧ slot ≠ key.slot := by
  have hnodup := htidy.free_nodup
  cases h with
  | reused first idle =>
    rw [first] at hnodup ⊢
    refine ⟨List.mem_cons_of_mem _ hslot, ?_⟩
    rintro rfl
    exact (List.nodup_cons.1 hnodup).1 hslot
  | added full =>
    change slot ∈ loaders.free at hslot
    rw [full] at hslot
    cases hslot

theorem Tidy.register (h : loaders.Tidy) : loaders.register.2.Tidy := by
  have hfresh := h.fresh_register
  generalize loaders.register.1 = key, loaders.register.2 = after at hfresh ⊢
  have hne := hfresh.slot_ne_zero h
  refine ⟨?_, ?_, ?_⟩
  · rw [hfresh.slots, if_neg (Ne.symm hne)]
    exact h.boot
  · intro slot hslot
    obtain ⟨hfree, hother⟩ := hfresh.mem_free h hslot
    rw [hfresh.slots, if_neg hother]
    exact h.free_idle hfree
  · have hnodup := h.free_nodup
    cases hfresh with
    | reused first idle =>
      rw [first] at hnodup
      exact (List.nodup_cons.1 hnodup).2
    | added full => exact hnodup

theorem Sound.register (h : loaders.Sound registrations) :
    loaders.register.2.Sound (registrations + 1) := by
  have hfresh := h.fresh_register
  refine ⟨h.toTidy.register, ?_⟩
  intro slot held hheld hzero
  rw [hfresh.slots] at hheld
  split at hheld
  · cases hheld
    rcases hfresh.idle with hidle | ⟨-, hgeneration⟩
    · have hturns := h.turns hidle (hfresh.slot_ne_zero h.toTidy)
      simpa using hturns
    · simp [hgeneration]
  · exact Nat.le_succ_of_le (h.turns hheld hzero)

/-! ## Retiring -/

theorem retire_of_live (hboot : key ≠ .boot) (hlive : loaders.isLive key = true) :
    loaders.retire key = {
      slots := loaders.slots.modify key.slot fun held => ⟨held.generation + 1, false⟩
      free := key.slot :: loaders.free
      epoch := loaders.epoch + 1 } := by
  rw [retire, if_neg (by simp [hboot, hlive])]

theorem slots_retire (hboot : key ≠ .boot) (hlive : loaders.isLive key = true) (slot : Nat) :
    (loaders.retire key).slots[slot]? =
      if slot = key.slot then some ⟨key.generation + 1, false⟩ else loaders.slots[slot]? := by
  rw [retire_of_live hboot hlive, Array.getElem?_modify]
  by_cases heq : key.slot = slot
  · rw [if_pos heq, if_pos heq.symm, ← heq, isLive_iff.1 hlive]
    rfl
  · rw [if_neg heq, if_neg (Ne.symm heq)]

theorem Sound.toNat_succ (h : loaders.Sound registrations) (hlt : registrations < 2 ^ 32)
    (hboot : key ≠ .boot) (hlive : loaders.isLive key = true) :
    (key.generation + 1).toNat = key.generation.toNat + 1 ∧
      key.generation.toNat + 1 ≤ registrations := by
  have hturns := h.turns (isLive_iff.1 hlive) (h.slot_ne_zero hlive hboot)
  simp only [if_true] at hturns
  refine ⟨?_, hturns⟩
  rw [UInt32.toNat_add]
  apply Nat.mod_eq_of_lt
  change key.generation.toNat + 1 < 2 ^ 32
  omega

theorem Tidy.retire (h : loaders.Tidy) (hboot : key ≠ .boot)
    (hlive : loaders.isLive key = true) : (loaders.retire key).Tidy := by
  have hne := h.slot_ne_zero hlive hboot
  have hfree : (loaders.retire key).free = key.slot :: loaders.free := by
    rw [retire_of_live hboot hlive]
  refine ⟨?_, ?_, ?_⟩
  · rw [slots_retire hboot hlive, if_neg (Ne.symm hne)]
    exact h.boot
  · intro slot hslot
    rw [slots_retire hboot hlive]
    split
    · exact ⟨_, rfl⟩
    · next hother =>
      rw [hfree, List.mem_cons] at hslot
      exact h.free_idle (hslot.resolve_left hother)
  · rw [hfree, List.nodup_cons]
    refine ⟨?_, h.free_nodup⟩
    intro hmem
    obtain ⟨generation, hidle⟩ := h.free_idle hmem
    cases (isLive_iff.1 hlive).symm.trans hidle

theorem Sound.retire (h : loaders.Sound registrations) (hlt : registrations < 2 ^ 32)
    (hboot : key ≠ .boot) (hlive : loaders.isLive key = true) :
    (loaders.retire key).Sound registrations := by
  obtain ⟨hnat, hle⟩ := h.toNat_succ hlt hboot hlive
  refine ⟨h.toTidy.retire hboot hlive, ?_⟩
  intro slot held hheld hzero
  rw [slots_retire hboot hlive] at hheld
  split at hheld
  · cases hheld
    simp only [hnat, Bool.false_eq_true, if_false]
    omega
  · exact h.turns hheld hzero

theorem Sound.ended_retire (h : loaders.Sound registrations) (hlt : registrations < 2 ^ 32)
    (hboot : key ≠ .boot) (hlive : loaders.isLive key = true) :
    (loaders.retire key).Ended key := by
  refine ⟨⟨key.generation + 1, false⟩, ?_, ?_⟩
  · rw [slots_retire hboot hlive, if_pos rfl]
  · rw [(h.toNat_succ hlt hboot hlive).1]
    exact Nat.lt_succ_self _

theorem Sound.keeps_ended (h : loaders.Sound registrations) (hlt : registrations < 2 ^ 32)
    (hboot : key ≠ .boot) (hlive : loaders.isLive key = true) (hended : loaders.Ended other) :
    (loaders.retire key).Ended other := by
  obtain ⟨held, hheld, hless⟩ := hended
  rw [Ended, slots_retire hboot hlive]
  split
  · next heq =>
    rw [heq, isLive_iff.1 hlive] at hheld
    cases hheld
    refine ⟨_, rfl, ?_⟩
    rw [(h.toNat_succ hlt hboot hlive).1]
    exact Nat.lt_succ_of_lt hless
  · exact ⟨held, hheld, hless⟩

theorem slot_ne_of_isLive (hlive : loaders.isLive key = true) (hother : loaders.isLive other = true)
    (hne : other ≠ key) : other.slot ≠ key.slot := by
  intro heq
  apply hne
  rw [isLive_iff] at hlive hother
  rw [heq, hlive] at hother
  obtain ⟨slot, generation⟩ := other
  cases hother
  cases heq
  rfl

theorem isLive_retire_of_ne (hboot : key ≠ .boot) (hlive : loaders.isLive key = true)
    (hother : loaders.isLive other = true) (hne : other ≠ key) :
    (loaders.retire key).isLive other = true := by
  have hslot := slot_ne_of_isLive hlive hother hne
  rw [isLive_iff] at hother ⊢
  rw [slots_retire hboot hlive, if_neg hslot]
  exact hother

/-! ## Keys of another generation -/

/-- The slot of a key has another generation, whether a later one or, once the generations have run
out, an earlier one. -/
def Moved (loaders : Loaders) (key : LoaderKey) : Prop :=
  ∃ held, loaders.slots[key.slot]? = some held ∧ held.generation ≠ key.generation

theorem Moved.isLive_eq_false (h : loaders.Moved key) : loaders.isLive key = false := by
  obtain ⟨held, hheld, hne⟩ := h
  rw [Bool.eq_false_iff]
  intro hlive
  rw [isLive_iff, hheld] at hlive
  cases hlive
  exact hne rfl

theorem Fresh.keeps_moved (h : loaders.Fresh key after) (hmoved : loaders.Moved other) :
    after.Moved other := by
  obtain ⟨held, hheld, hne⟩ := hmoved
  rw [Moved, h.slots]
  split
  · next heq =>
    rw [heq] at hheld
    rcases h.idle with hidle | ⟨hnone, -⟩
    · cases hheld.symm.trans hidle
      exact ⟨_, rfl, hne⟩
    · cases hheld.symm.trans hnone
  · exact ⟨held, hheld, hne⟩

theorem moved_retire (hboot : key ≠ .boot) (hlive : loaders.isLive key = true) :
    (loaders.retire key).Moved key := by
  refine ⟨⟨key.generation + 1, false⟩, ?_, ?_⟩
  · rw [slots_retire hboot hlive, if_pos rfl]
  · intro heq
    simp at heq

theorem Moved.retire (h : loaders.Moved other) (hboot : key ≠ .boot)
    (hlive : loaders.isLive key = true) (hslot : other.slot ≠ key.slot) :
    (loaders.retire key).Moved other := by
  obtain ⟨held, hheld, hne⟩ := h
  refine ⟨held, ?_, hne⟩
  rw [slots_retire hboot hlive, if_neg hslot]
  exact hheld

end Loaders

end ClassSieve
