import ClassSieve.Proofs.Loaders.Handles
import Mathlib.Order.Bounds.Defs

/-!
# Slots that are used again

A loader gets a new slot only when no slot is free. So there are as many slots as loaders were ever
alive at one time, and the free slots are those without a live loader.
-/
namespace ClassSieve

namespace Loaders
variable {loaders after : Loaders} {key : LoaderKey} {slot peak held : Nat}

def Idle (loaders : Loaders) (slot : Nat) : Prop :=
  ∃ generation, loaders.slots[slot]? = some ⟨generation, false⟩

theorem not_idle_zero (h : loaders.Tidy) : ¬ loaders.Idle 0 := by
  rintro ⟨generation, hslot⟩
  simp [h.boot] at hslot

theorem liveCount_of_not_idle (h : ∀ slot, ¬ loaders.Idle slot) :
    loaders.liveCount = loaders.capacity := by
  rw [liveCount, capacity, Array.countP_eq_size]
  intro place hplace
  obtain ⟨slot, hslot⟩ := Array.mem_iff_getElem?.1 hplace
  by_contra hdead
  obtain ⟨generation, live⟩ := place
  simp only [Bool.not_eq_true] at hdead
  exact h slot ⟨generation, hdead ▸ hslot⟩

theorem liveCount_lt_of_idle (h : loaders.Idle slot) : loaders.liveCount < loaders.capacity := by
  obtain ⟨generation, hslot⟩ := h
  rw [liveCount, capacity, ← Array.countP_toList, ← Array.length_toList, List.countP_lt_length_iff]
  exact ⟨_, Array.mem_toList_iff.2 (Array.mem_of_getElem? hslot), rfl⟩

theorem Fresh.idle_iff (h : loaders.Fresh key after) :
    after.Idle slot ↔ slot ≠ key.slot ∧ loaders.Idle slot := by
  rw [Idle, h.slots]
  split <;> simp_all [Idle]

theorem idle_retire_iff (hboot : key ≠ .boot) (hlive : loaders.isLive key = true) :
    (loaders.retire key).Idle slot ↔ slot = key.slot ∨ loaders.Idle slot := by
  rw [Idle, slots_retire hboot hlive]
  split <;> simp_all [Idle]

/-- Loaders of which `held` are alive besides the boot loader, and were at most `peak`. -/
structure Compact (peak held : Nat) (loaders : Loaders) : Prop where
  capacity : loaders.capacity = 1 + peak
  held_le : held ≤ peak
  idle_free : ∀ {slot}, loaders.Idle slot → slot ∈ loaders.free

theorem compact_initial : Compact 0 0 initial where
  capacity := rfl
  held_le := Nat.le_refl 0
  idle_free {slot} h := by
    obtain ⟨generation, hslot⟩ := h
    cases slot <;> simp [initial] at hslot

theorem Compact.register (h : loaders.Compact peak held) (hfresh : loaders.Fresh key after)
    (hlive : loaders.liveCount = 1 + held) : after.Compact (max peak (held + 1)) (held + 1) where
  capacity := by
    have hcapacity := h.capacity
    have hle := h.held_le
    cases hfresh with
    | reused first idle =>
      -- A slot without a loader means that the peak is not reached.
      have hroom := liveCount_lt_of_idle ⟨_, idle⟩
      rw [Loaders.capacity, Array.size_modify, ← Loaders.capacity]
      omega
    | added full =>
      have hfull : loaders.liveCount = loaders.capacity := by
        apply liveCount_of_not_idle
        intro slot hidle
        have hslot := h.idle_free hidle
        rw [full] at hslot
        cases hslot
      rw [Loaders.capacity, Array.size_push, ← Loaders.capacity]
      omega
  held_le := Nat.le_max_right _ _
  idle_free {slot} hslot := by
    obtain ⟨hne, hidle⟩ := hfresh.idle_iff.1 hslot
    have hfree := h.idle_free hidle
    cases hfresh with
    | reused first idle =>
      rw [first, List.mem_cons] at hfree
      exact hfree.resolve_left hne
    | added full => exact hfree

theorem Compact.retire (h : loaders.Compact peak held) (hboot : key ≠ .boot)
    (hlive : loaders.isLive key = true) : (loaders.retire key).Compact peak (held - 1) where
  capacity := by
    rw [retire_of_live hboot hlive, Loaders.capacity, Array.size_modify]
    exact h.capacity
  held_le := (Nat.sub_le held 1).trans h.held_le
  idle_free {slot} hslot := by
    rw [retire_of_live hboot hlive, List.mem_cons]
    exact ((idle_retire_iff hboot hlive).1 hslot).imp_right h.idle_free

end Loaders

namespace Agent
variable {agent : Agent} {count peak : Nat} {issued : List LoaderKey} {dropped : List Nat}

def heldCount (agent : Agent) : Nat := agent.handles.countP (·.held)

theorem Recorded.heldCount_eq (h : agent.Recorded issued dropped) :
    agent.heldCount = (heldHandles issued dropped).length := by
  have hheld : agent.handles.map (·.held) =
      (List.range issued.length).map fun handle => decide (handle ∉ dropped) := by
    apply List.ext_getElem?
    intro handle
    rw [List.getElem?_map, h.handles, List.getElem?_map]
    rcases Nat.lt_or_ge handle issued.length with hlt | hge
    · rw [List.getElem?_eq_getElem hlt, List.getElem?_range hlt]
      rfl
    · rw [List.getElem?_eq_none hge, List.getElem?_eq_none (by simpa using hge)]
      rfl
  calc
    agent.heldCount = (agent.handles.map (·.held)).countP id := by
      rw [List.countP_map]
      rfl
    _ = (heldHandles issued dropped).length := by
      rw [hheld, List.countP_map, heldHandles, ← List.countP_eq_length_filter]
      rfl

theorem heldCount_register (agent : Agent) : agent.register.1.heldCount = agent.heldCount + 1 := by
  simp [heldCount, register]

theorem heldCount_retire {handle : Nat} {key : LoaderKey}
    (hheld : agent.handles[handle]? = some ⟨key, true⟩) :
    (agent.retire handle).1.heldCount = agent.heldCount - 1 := by
  obtain ⟨hlt, hget⟩ := List.getElem?_eq_some_iff.1 hheld
  rw [retire, hheld, heldCount, List.countP_set hlt]
  simp [heldCount, hget]

theorem retire_of_not_held {handle : Nat}
    (h : ∀ key, agent.handles[handle]? ≠ some ⟨key, true⟩) : (agent.retire handle).1 = agent := by
  rw [retire]
  split
  · next key hheld => exact absurd hheld (h key)
  · rfl

theorem compact_step (h : agent.loaders.Compact peak agent.heldCount)
    (hregistered : agent.Registered count)
    (hlive : agent.loaders.liveCount = 1 + agent.heldCount) (operation : Operation) :
    (agent.step operation).1.loaders.Compact (max peak (agent.step operation).1.heldCount)
      (agent.step operation).1.heldCount := by
  have hsame : agent.loaders.Compact (max peak agent.heldCount) agent.heldCount := by
    rwa [Nat.max_eq_left h.held_le]
  cases operation with
  | register =>
    have hnext := h.register hregistered.loaders.fresh_register hlive
    rwa [← heldCount_register] at hnext
  | retire handle =>
    change (agent.retire handle).1.loaders.Compact (max peak (agent.retire handle).1.heldCount)
      (agent.retire handle).1.heldCount
    by_cases hheld : ∃ key, agent.handles[handle]? = some ⟨key, true⟩
    · obtain ⟨key, hkey⟩ := hheld
      obtain ⟨hkeylive, hboot⟩ := hregistered.held_live hkey
      have hnext := h.retire hboot hkeylive
      rw [heldCount_retire hkey, Nat.max_eq_left hnext.held_le, retire, hkey]
      exact hnext
    · rw [retire_of_not_held (not_exists.1 hheld)]
      exact hsame
  | _ => exact hsame

def IsPeak (start : Agent) (past : List Operation) (peak : Nat) : Prop :=
  IsGreatest {held | ∃ early, early <+: past ∧ (start.run early).1.heldCount = held} peak

theorem isPeak_nil (start : Agent) : IsPeak start [] start.heldCount := by
  refine ⟨⟨[], List.prefix_refl _, rfl⟩, ?_⟩
  rintro held ⟨early, hearly, rfl⟩
  rw [List.prefix_nil.1 hearly]
  rfl

theorem IsPeak.concat {start : Agent} {past : List Operation} (h : IsPeak start past peak)
    (operation : Operation) : IsPeak start (past ++ [operation])
      (max peak (start.run (past ++ [operation])).1.heldCount) := by
  obtain ⟨⟨highest, hhighest, hpeak⟩, hbound⟩ := h
  constructor
  · rcases Nat.le_total peak (start.run (past ++ [operation])).1.heldCount with hle | hle
    · rw [Nat.max_eq_right hle]
      exact ⟨_, List.prefix_refl _, rfl⟩
    · rw [Nat.max_eq_left hle]
      exact ⟨highest, hhighest.trans (List.prefix_append _ _), hpeak⟩
  · rintro held ⟨early, hearly, rfl⟩
    rcases List.prefix_concat_iff.1 hearly with rfl | hbefore
    · exact Nat.le_max_right _ _
    · exact (hbound ⟨early, hbefore, rfl⟩).trans (Nat.le_max_left _ _)

theorem compact_run (policy : Policy) (capacity : Nat) (past : List Operation)
    (hcount : registrations past < 2 ^ 32) : ∃ peak, IsPeak (ofPolicy policy capacity) past peak ∧
      ((ofPolicy policy capacity).run past).1.loaders.Compact peak
        ((ofPolicy policy capacity).run past).1.heldCount := by
  induction past using List.reverseRecOn with
  | nil => exact ⟨0, isPeak_nil _, Loaders.compact_initial⟩
  | append_singleton past operation ih =>
    have hbefore : registrations past < 2 ^ 32 := by
      rw [registrations, List.countP_append] at hcount
      exact lt_of_le_of_lt (Nat.le_add_right _ _) hcount
    obtain ⟨peak, hpeak, hcompact⟩ := ih hbefore
    have hstart := registered_ofPolicy policy capacity
    have hrecorded := (recorded_ofPolicy policy capacity).run hstart past (by omega)
    have hlive := hrecorded.liveCount
    rw [← hrecorded.heldCount_eq] at hlive
    refine ⟨_, hpeak.concat operation, ?_⟩
    rw [run_append]
    exact compact_step hcompact (hstart.run past (by omega)) hlive operation

/-- There are as many slots as loaders were ever alive at one time, the boot loader included. The
free slots are those without a live loader, each free once. -/
theorem capacity_eq_peak (policy : Policy) (capacity : Nat) (past : List Operation)
    (hcount : registrations past < 2 ^ 32) :
    let start := ofPolicy policy capacity
    let loaders := (start.run past).1.loaders
    (∃ peak, IsPeak start past peak ∧ loaders.capacity = 1 + peak) ∧
      loaders.free.Nodup ∧ (∀ slot, slot ∈ loaders.free ↔ loaders.Idle slot) ∧
      0 ∉ loaders.free := by
  intro start loaders
  obtain ⟨peak, hpeak, hcompact⟩ := compact_run policy capacity past hcount
  have htidy : loaders.Tidy :=
    ((registered_ofPolicy policy capacity).run past (by omega)).loaders.toTidy
  refine ⟨⟨peak, hpeak, hcompact.capacity⟩, htidy.free_nodup, fun slot => ?_, fun hzero => ?_⟩
  · exact ⟨htidy.free_idle, hcompact.idle_free⟩
  · exact Loaders.not_idle_zero htidy (htidy.free_idle hzero)

theorem capacity_eq_peak_reused :
    let past := [.register, .register, .retire 0, .register, .retire 1]
    let loaders := ((ofPolicy .idle 16).run past).1.loaders
    registrations past < 2 ^ 32 ∧ IsPeak (ofPolicy .idle 16) past 2 ∧ loaders.capacity = 3 ∧
      loaders.Idle 2 ∧ ¬ loaders.Idle 1 := by
  intro past loaders
  have hcount : registrations past < 2 ^ 32 := by decide
  obtain ⟨⟨peak, hpeak, hcapacity⟩, -, hfree, -⟩ := capacity_eq_peak .idle 16 past hcount
  have htwo : peak = 2 := by
    have hsize : loaders.capacity = 3 := rfl
    change loaders.capacity = 1 + peak at hcapacity
    omega
  refine ⟨hcount, htwo ▸ hpeak, rfl, ?_, ?_⟩
  · exact (hfree 2).1 (by decide)
  · rw [← hfree 1]
    decide

end Agent

end ClassSieve
