import ClassSieve.Proofs.Cache.Retirement
import ClassSieve.Proofs.Loaders.LiveKeys

/-!
# Handles and the keys that they keep alive

Registering a loader hands out a key that was never handed out before, also where the slot of a
retired loader is used again. A key is live as long as its handle is held, and the epoch counts the
handles that were dropped.
-/
namespace ClassSieve

theorem getElem?_append_singleton {α : Type} (l : List α) (a : α) (i : Nat) :
    (l ++ [a])[i]? = if i = l.length then some a else l[i]? := by
  rcases Nat.lt_trichotomy i l.length with hlt | heq | hgt
  · rw [List.getElem?_append_left hlt, if_neg hlt.ne]
  · rw [heq, List.getElem?_concat_length, if_pos rfl]
  · rw [if_neg hgt.ne', List.getElem?_eq_none (by simp; omega), List.getElem?_eq_none hgt.le]

theorem filterMap_cons_eq_append {α β : Type} (f : α → Option β) (a : α) (l : List α) :
    (a :: l).filterMap f = (f a).toList ++ l.filterMap f := by
  rw [List.filterMap_cons]
  cases f a <;> rfl

namespace Loaders
variable {loaders after : Loaders} {key other : LoaderKey}

theorem Fresh.isLive_iff (h : loaders.Fresh key after) :
    after.isLive other = true ↔ other = key ∨ loaders.isLive other = true := by
  constructor
  · intro hlive
    rw [Loaders.isLive_iff, h.slots] at hlive
    split at hlive
    · next hslot =>
      left
      obtain ⟨slot, generation⟩ := other
      cases hslot
      cases hlive
      rfl
    · right
      exact Loaders.isLive_iff.2 hlive
  · rintro (rfl | hlive)
    · exact h.isLive
    · exact h.keeps_live hlive

theorem isLive_retire_iff (hboot : key ≠ .boot) (hlive : loaders.isLive key = true) :
    (loaders.retire key).isLive other = true ↔ other ≠ key ∧ loaders.isLive other = true := by
  constructor
  · intro hafter
    rw [isLive_iff, slots_retire hboot hlive] at hafter
    split at hafter
    · simp at hafter
    · next hslot =>
      refine ⟨?_, isLive_iff.2 hafter⟩
      rintro rfl
      exact hslot rfl
  · rintro ⟨hne, hother⟩
    exact isLive_retire_of_ne hboot hlive hother hne

end Loaders

namespace Agent

def issued? : Operation × Answer → Option LoaderKey
  | (.register, .key key) => some key
  | _ => none

def dropped? : Operation × Answer → Option Nat
  | (.retire handle, .flag true) => some handle
  | _ => none

/-- The keys and the handles of an agent are those of the registrations and drops so far. -/
structure Recorded (issued : List LoaderKey) (dropped : List Nat) (agent : Agent) : Prop where
  handles : ∀ handle : Nat, agent.handles[handle]? =
    issued[handle]?.map fun key => ⟨key, decide (handle ∉ dropped)⟩
  distinct : (LoaderKey.boot :: issued).Nodup
  dropped_once : dropped.Nodup
  dropped_ended : ∀ handle ∈ dropped, ∃ key, issued[handle]? = some key ∧ agent.loaders.Ended key
  live_iff : ∀ key, agent.loaders.isLive key = true ↔
    key = .boot ∨ ∃ handle, issued[handle]? = some key ∧ handle ∉ dropped
  epoch_eq : agent.loaders.epoch = dropped.length

variable {issued : List LoaderKey} {dropped : List Nat} {agent : Agent} {count : Nat}

theorem recorded_ofPolicy (policy : Policy) (capacity : Nat) :
    (ofPolicy policy capacity).Recorded [] [] where
  handles handle := rfl
  distinct := by simp
  dropped_once := List.nodup_nil
  dropped_ended := by simp
  live_iff key := by
    obtain ⟨slot, generation⟩ := key
    change Loaders.initial.isLive _ = true ↔ _
    rw [Loaders.isLive_iff, Loaders.initial, LoaderKey.boot]
    cases slot with
    | zero => simp [eq_comm]
    | succ slot => simp
  epoch_eq := rfl

theorem Recorded.ne_boot (h : agent.Recorded issued dropped) {handle : Nat} {key : LoaderKey}
    (hkey : issued[handle]? = some key) : key ≠ .boot := by
  rintro rfl
  exact (List.nodup_cons.1 h.distinct).1 (List.mem_of_getElem? hkey)

theorem Recorded.handle_eq (h : agent.Recorded issued dropped) {handle other : Nat}
    {key : LoaderKey} (hkey : issued[handle]? = some key) (hother : issued[other]? = some key) :
    handle = other := by
  have hbound := (List.getElem?_eq_some_iff.1 hkey).1
  exact (List.getElem?_inj hbound (List.nodup_cons.1 h.distinct).2).1 (hkey.trans hother.symm)

theorem Recorded.lt_length (h : agent.Recorded issued dropped) {handle : Nat}
    (hdropped : handle ∈ dropped) : handle < issued.length := by
  obtain ⟨key, hkey, -⟩ := h.dropped_ended handle hdropped
  exact (List.getElem?_eq_some_iff.1 hkey).1

theorem Recorded.length_handles (h : agent.Recorded issued dropped) :
    agent.handles.length = issued.length := by
  apply Nat.le_antisymm
  · rw [← List.getElem?_eq_none_iff, h.handles, List.getElem?_eq_none (Nat.le_refl _)]
    rfl
  · rw [← List.getElem?_eq_none_iff]
    have hnone := h.handles agent.handles.length
    rw [List.getElem?_eq_none (Nat.le_refl _)] at hnone
    exact Option.map_eq_none_iff.1 hnone.symm

theorem Recorded.not_mem_of_fresh (h : agent.Recorded issued dropped) {key : LoaderKey}
    {after : Loaders} (hfresh : agent.loaders.Fresh key after) :
    key ∉ LoaderKey.boot :: issued := by
  intro hmem
  have hnotlive := hfresh.not_isLive
  rw [Bool.eq_false_iff, ne_eq, h.live_iff, not_or] at hnotlive
  obtain ⟨handle, hhandle⟩ := List.mem_iff_getElem?.1
    ((List.mem_cons.1 hmem).resolve_left hnotlive.1)
  by_cases hheld : handle ∈ dropped
  · obtain ⟨old, hold, hended⟩ := h.dropped_ended handle hheld
    rw [hhandle, Option.some.injEq] at hold
    rw [← hold] at hended
    exact hfresh.not_ended hended
  · exact hnotlive.2 ⟨handle, hhandle, hheld⟩

theorem Recorded.register (h : agent.Recorded issued dropped)
    (hsound : agent.loaders.Sound count) :
    agent.register.1.Recorded (issued ++ [agent.register.2]) dropped := by
  have hfresh := hsound.fresh_register
  rw [Agent.register]
  rcases hregister : agent.loaders.register with ⟨key, after⟩
  rw [hregister] at hfresh
  have hnew := h.not_mem_of_fresh hfresh
  have hlast : issued.length ∉ dropped := by
    intro hmem
    exact Nat.lt_irrefl _ (h.lt_length hmem)
  have hissued : ∀ {handle : Nat} {other : LoaderKey},
      (issued ++ [key])[handle]? = some other ↔
        issued[handle]? = some other ∨ handle = issued.length ∧ other = key := by
    intro handle other
    rw [getElem?_append_singleton]
    split
    · next heq => simp [heq, eq_comm]
    · next hne => simp [hne]
  refine ⟨?_, ?_, h.dropped_once, ?_, ?_, ?_⟩
  · intro handle
    rw [getElem?_append_singleton, getElem?_append_singleton, h.length_handles, h.handles]
    split
    · next heq => simp [heq, hlast]
    · rfl
  · rw [← List.cons_append, List.nodup_append_comm, List.singleton_append, List.nodup_cons]
    exact ⟨hnew, h.distinct⟩
  · intro handle hhandle
    obtain ⟨old, hold, hended⟩ := h.dropped_ended handle hhandle
    exact ⟨old, hissued.2 (Or.inl hold), hfresh.keeps_ended hended⟩
  · intro other
    rw [hfresh.isLive_iff, h.live_iff]
    simp only [hissued, or_and_right, exists_or]
    constructor
    · rintro (rfl | hboot | hold)
      · exact Or.inr (Or.inr ⟨issued.length, ⟨rfl, rfl⟩, hlast⟩)
      · exact Or.inl hboot
      · exact Or.inr (Or.inl hold)
    · rintro (hboot | hold | ⟨handle, ⟨-, hkey⟩, -⟩)
      · exact Or.inr (Or.inl hboot)
      · exact Or.inr (Or.inr hold)
      · exact Or.inl hkey
  · rw [hfresh.epoch]
    exact h.epoch_eq

theorem Recorded.retire (h : agent.Recorded issued dropped) (hsound : agent.loaders.Sound count)
    (hlt : count < 2 ^ 32) (handle : Nat) :
    (agent.retire handle).1.Recorded issued
      (dropped ++ (dropped? (.retire handle, .flag (agent.retire handle).2)).toList) := by
  rw [Agent.retire]
  split
  · next key hheld =>
    obtain ⟨hissued, hkept⟩ : issued[handle]? = some key ∧ handle ∉ dropped := by
      rw [h.handles] at hheld
      simpa using hheld
    have hlive : agent.loaders.isLive key = true :=
      (h.live_iff key).2 (Or.inr ⟨handle, hissued, hkept⟩)
    have hboot := h.ne_boot hissued
    have hmem : ∀ other, other ∈ dropped ++ [handle] ↔ other ∈ dropped ∨ other = handle := by
      simp
    change Recorded issued (dropped ++ [handle]) _
    refine ⟨?_, h.distinct, ?_, ?_, ?_, ?_⟩
    · intro other
      have hbefore := h.handles other
      rw [List.getElem?_set]
      split
      · next heq =>
        have hbound := (List.getElem?_eq_some_iff.1 hheld).1
        rw [← heq, if_pos hbound, hissued]
        simp
      · next hne => simp [hbefore, hmem, Ne.symm hne]
    · rw [List.nodup_append_comm, List.singleton_append, List.nodup_cons]
      exact ⟨hkept, h.dropped_once⟩
    · intro other hother
      rcases (hmem other).1 hother with hold | rfl
      · obtain ⟨old, hkey, hended⟩ := h.dropped_ended other hold
        exact ⟨old, hkey, hsound.keeps_ended hlt hboot hlive hended⟩
      · exact ⟨key, hissued, hsound.ended_retire hlt hboot hlive⟩
    · intro other
      rw [Loaders.isLive_retire_iff hboot hlive, h.live_iff]
      simp only [hmem, not_or]
      constructor
      · rintro ⟨hne, rfl | ⟨place, hplace, hstays⟩⟩
        · exact Or.inl rfl
        · refine Or.inr ⟨place, hplace, hstays, ?_⟩
          rintro rfl
          exact hne (Option.some.inj (hplace.symm.trans hissued))
      · rintro (rfl | ⟨place, hplace, hstays, hother⟩)
        · exact ⟨hboot.symm, Or.inl rfl⟩
        · refine ⟨?_, Or.inr ⟨place, hplace, hstays⟩⟩
          rintro rfl
          exact hother (h.handle_eq hplace hissued)
    · rw [Loaders.retire_of_live hboot hlive, List.length_append, h.epoch_eq]
      rfl
  · change Recorded issued (dropped ++ []) agent
    rw [List.append_nil]
    exact h

theorem Recorded.of_unchanged (h : agent.Recorded issued dropped) (edition : Edition)
    (cache : Cache) : Recorded issued dropped { agent with edition, cache } :=
  ⟨h.handles, h.distinct, h.dropped_once, h.dropped_ended, h.live_iff, h.epoch_eq⟩

theorem Recorded.step (h : agent.Recorded issued dropped) (hsound : agent.loaders.Sound count)
    (hlt : count < 2 ^ 32) (operation : Operation) :
    (agent.step operation).1.Recorded
      (issued ++ (issued? (operation, (agent.step operation).2)).toList)
      (dropped ++ (dropped? (operation, (agent.step operation).2)).toList) := by
  cases operation with
  | register =>
    change Recorded _ (dropped ++ []) _
    rw [List.append_nil]
    exact h.register hsound
  | retire handle =>
    change Recorded (issued ++ []) _ _
    rw [List.append_nil]
    exact h.retire hsound hlt handle
  | _ =>
    change Recorded (issued ++ []) (dropped ++ []) _
    rw [List.append_nil, List.append_nil]
    exact h.of_unchanged _ _

theorem Recorded.run (h : agent.Recorded issued dropped) (hregistered : agent.Registered count)
    (past : List Operation) (hlt : count + registrations past < 2 ^ 32) :
    (agent.run past).1.Recorded
      (issued ++ (past.zip (agent.run past).2).filterMap issued?)
      (dropped ++ (past.zip (agent.run past).2).filterMap dropped?) := by
  induction past generalizing agent issued dropped count with
  | nil => simpa [Agent.run] using h
  | cons operation rest ih =>
    rw [registrations_cons, ← Nat.add_assoc] at hlt
    have hnext := ih (h.step hregistered.loaders (by omega) operation)
      (hregistered.step (by omega) operation) hlt
    rw [List.append_assoc, List.append_assoc] at hnext
    rw [Agent.run, List.zip_cons_cons, filterMap_cons_eq_append, filterMap_cons_eq_append]
    exact hnext

theorem length_filterMap_issued? (agent : Agent) (past : List Operation) :
    ((past.zip (agent.run past).2).filterMap issued?).length = registrations past := by
  induction past generalizing agent with
  | nil => rfl
  | cons operation rest ih =>
    rw [Agent.run, List.zip_cons_cons, filterMap_cons_eq_append, List.length_append, ih,
      registrations_cons]
    cases operation <;> rfl

def heldHandles (issued : List LoaderKey) (dropped : List Nat) : List Nat :=
  (List.range issued.length).filter fun handle => handle ∉ dropped

theorem mem_heldHandles {handle : Nat} :
    handle ∈ heldHandles issued dropped ↔ handle < issued.length ∧ handle ∉ dropped := by
  simp [heldHandles]

theorem Recorded.isLive_iff (h : agent.Recorded issued dropped) (key : LoaderKey) :
    agent.loaders.isLive key = true ↔
      key = .boot ∨ ∃ handle ∈ heldHandles issued dropped, issued[handle]? = some key := by
  rw [h.live_iff]
  apply or_congr_right
  apply exists_congr
  intro handle
  rw [mem_heldHandles]
  constructor
  · rintro ⟨hkey, hkept⟩
    exact ⟨⟨(List.getElem?_eq_some_iff.1 hkey).1, hkept⟩, hkey⟩
  · rintro ⟨⟨-, hkept⟩, hkey⟩
    exact ⟨hkey, hkept⟩

theorem Recorded.liveCount (h : agent.Recorded issued dropped) :
    agent.loaders.liveCount = 1 + (heldHandles issued dropped).length := by
  have hkeys : ∀ key, key ∈ (heldHandles issued dropped).filterMap (issued[·]?) ↔
      ∃ handle ∈ heldHandles issued dropped, issued[handle]? = some key := by
    intro key
    exact List.mem_filterMap
  have hnodup : ((heldHandles issued dropped).filterMap (issued[·]?)).Nodup := by
    apply (List.nodup_range.filter _).filterMap
    intro handle other key hkey hother
    exact h.handle_eq hkey hother
  have hboot : LoaderKey.boot ∉ (heldHandles issued dropped).filterMap (issued[·]?) := by
    intro hmem
    obtain ⟨handle, -, hhandle⟩ := (hkeys _).1 hmem
    exact h.ne_boot hhandle rfl
  have hlength : ((heldHandles issued dropped).filterMap (issued[·]?)).length =
      (heldHandles issued dropped).length := by
    rw [List.length_filterMap_eq_countP, List.countP_eq_length]
    intro handle hhandle
    rw [List.getElem?_eq_getElem (mem_heldHandles.1 hhandle).1]
    rfl
  have hlive : ∀ key, key ∈ LoaderKey.boot :: (heldHandles issued dropped).filterMap (issued[·]?) ↔
      agent.loaders.isLive key = true := by
    intro key
    rw [List.mem_cons, hkeys, h.isLive_iff]
  rw [Loaders.liveCount_eq_length (List.nodup_cons.2 ⟨hboot, hnodup⟩) hlive, List.length_cons,
    hlength, Nat.add_comm]

theorem Recorded.retire_answer (h : agent.Recorded issued dropped) (handle : Nat) :
    (agent.retire handle).2 = decide (handle ∈ heldHandles issued dropped) := by
  rw [Agent.retire, h.handles]
  by_cases hbound : handle < issued.length
  · rw [List.getElem?_eq_getElem hbound]
    by_cases hdropped : handle ∈ dropped <;> simp [mem_heldHandles, hbound, hdropped]
  · rw [List.getElem?_eq_none (by omega)]
    simp [mem_heldHandles, hbound]

/-- A key is live as long as its handle is held: no two registrations get one key, and a key whose
handle was dropped is not live at any later time. -/
theorem live_iff_held (policy : Policy) (capacity : Nat) (past : List Operation)
    (hcount : registrations past < 2 ^ 32) :
    let start := ofPolicy policy capacity
    let agent := (start.run past).1
    let events := past.zip (start.run past).2
    let issued := events.filterMap issued?
    let dropped := events.filterMap dropped?
    let held := heldHandles issued dropped
    issued.length = registrations past ∧ (LoaderKey.boot :: issued).Nodup ∧ dropped.Nodup ∧
      (∀ handle, (agent.step (.retire handle)).2 = .flag (decide (handle ∈ held))) ∧
      (∀ key, agent.loaders.isLive key = true ↔
        key = .boot ∨ ∃ handle ∈ held, issued[handle]? = some key) ∧
      agent.loaders.liveCount = 1 + held.length ∧ agent.loaders.epoch = dropped.length ∧
      ∀ later, registrations (past ++ later) < 2 ^ 32 →
        ∀ handle ∈ dropped, ∀ key, issued[handle]? = some key →
          (start.run (past ++ later)).1.loaders.isLive key = false := by
  intro start agent events issued dropped held
  have hstart := registered_ofPolicy policy capacity
  have hrecorded : agent.Recorded issued dropped :=
    (recorded_ofPolicy policy capacity).run hstart past (by omega)
  refine ⟨length_filterMap_issued? start past, hrecorded.distinct, hrecorded.dropped_once, ?_,
    hrecorded.isLive_iff, hrecorded.liveCount, hrecorded.epoch_eq, ?_⟩
  · intro handle
    exact congrArg Answer.flag (hrecorded.retire_answer handle)
  · intro later hlater handle hhandle key hkey
    obtain ⟨old, hold, hended⟩ := hrecorded.dropped_ended handle hhandle
    rw [hkey, Option.some.injEq] at hold
    rw [← hold] at hended
    rw [registrations, List.countP_append, ← registrations, ← registrations] at hlater
    rw [run_append]
    exact ((hstart.run past (by omega)).ended_run hended later (by omega)).1.isLive_eq_false

theorem live_iff_held_reused :
    let agent := ((ofPolicy .idle 16).run [.register, .retire 0, .register]).1
    agent.loaders.isLive ⟨1, 0⟩ = false ∧ agent.loaders.isLive ⟨1, 1⟩ = true ∧
      agent.loaders.liveCount = 2 ∧ agent.loaders.epoch = 1 := by
  intro agent
  obtain ⟨-, -, -, -, hlive, hcount, hepoch, hdropped⟩ :=
    live_iff_held .idle 16 [.register, .retire 0, .register] (by decide)
  refine ⟨?_, ?_, hcount, hepoch⟩
  · exact hdropped [] (by decide) 0 (by decide) ⟨1, 0⟩ rfl
  · rw [hlive]
    exact Or.inr ⟨1, by decide, rfl⟩

end Agent

end ClassSieve
