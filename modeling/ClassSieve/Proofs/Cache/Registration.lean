import ClassSieve.Proofs.Cache.Uses
import ClassSieve.Proofs.Loaders.Liveness

/-!
# Loaders and their tables

In a run with fewer registrations than a slot has generations, a handle that is held stands for a
live loader of its own. A table belongs to a loader that is live or has ended, and to a live one if
no loader was retired since the last sweep; a key that is registered has none yet.
-/
namespace ClassSieve
open ClassFile

namespace Operation

def registers : Operation → Bool
  | .register => true
  | _ => false

def sweeps : Operation → Bool
  | .load _ (some _) _ | .redefine .. | .sweep => true
  | _ => false

end Operation

namespace Cache
variable {cache after : Cache} {loaders : Loaders} {loader other : LoaderKey} {name : String}
  {kind : UseKind}

theorem sweptEpoch_trim (cache : Cache) : cache.trim.sweptEpoch = cache.sweptEpoch := by
  by_cases hsize : cache.size ≤ cache.kept
  · rw [trim_of_le hsize]
  · rw [trim_of_lt (by omega)]

theorem isSome_tables_trim (cache : Cache) (loader : LoaderKey) :
    (cache.trim.tables.get? loader).isSome = (cache.tables.get? loader).isSome := by
  by_cases hsize : cache.size ≤ cache.kept
  · rw [trim_of_le hsize]
  · rw [trim_of_lt (by omega)]
    exact isSome_tables_foldl_eraseSlot cache.oldest cache loader

theorem isSome_tables_setSlot (cache : Cache) (loader other : LoaderKey) (name : String)
    (slot : CacheSlot) (h : ((cache.setSlot loader name slot).tables.get? other).isSome) :
    (cache.tables.get? other).isSome ∨ other = loader := by
  simp only [setSlot, Table.get?_set] at h
  split at h
  · next heq => exact Or.inr heq.symm
  · exact Or.inl h

theorem isSome_tables_of_slot? {slot : CacheSlot} (h : cache.slot? loader name = some slot) :
    (cache.tables.get? loader).isSome := by
  obtain ⟨table, htable, -⟩ := Option.bind_eq_some_iff.1 h
  exact Option.isSome_of_eq_some htable

theorem Used.tables (hused : cache.Used loaders loader name kind after)
    (h : (after.tables.get? other).isSome) : (cache.tables.get? other).isSome ∨ other = loader := by
  cases hused with
  | hit stored same => exact isSome_tables_setSlot cache loader other name _ h
  | refresh stored same => exact isSome_tables_setSlot cache loader other name _ h
  | admission missing served same =>
    rw [store] at h
    split at h
    · rw [isSome_tables_trim] at h
      exact isSome_tables_setSlot cache loader other name _ h
    · exact isSome_tables_setSlot cache loader other name _ h

theorem Used.served (hused : cache.Used loaders loader name kind after) :
    cache.serves loaders loader = true := by
  cases hused with
  | hit stored same => rw [Cache.serves, isSome_tables_of_slot? stored, Bool.true_or]
  | refresh stored same => rw [Cache.serves, isSome_tables_of_slot? stored, Bool.true_or]
  | admission missing served same => exact served

theorem Used.serves (hused : cache.Used loaders loader name kind after)
    (h : (after.tables.get? other).isSome) : cache.serves loaders other = true := by
  rcases hused.tables h with htable | rfl
  · rw [Cache.serves, htable, Bool.true_or]
  · exact hused.served

theorem tables_answerSwept {edition : Edition} {bytes : Bytes}
    (h : ((cache.answerSwept loaders edition loader name bytes).1.tables.get? other).isSome) :
    (cache.tables.get? other).isSome ∨ other = loader := by
  cases huse : cache.lookupUse? loaders edition loader name with
  | some use => exact (used_answerSwept bytes huse).2.tables h
  | none =>
    obtain ⟨counts, hcache, -⟩ := answerSwept_of_unused huse
    rw [hcache] at h
    exact Or.inl h

theorem Used.sweptEpoch (hused : cache.Used loaders loader name kind after) :
    after.sweptEpoch = cache.sweptEpoch := by
  cases hused with
  | hit stored same => rfl
  | refresh stored same => rfl
  | admission missing served same =>
    rw [store]
    split
    · exact sweptEpoch_trim _
    · rfl

/-- The tables are those of live loaders, unless a loader was retired since the last sweep. -/
structure Swept (cache : Cache) (loaders : Loaders) : Prop where
  epoch_le : cache.sweptEpoch ≤ loaders.epoch
  live : cache.sweptEpoch = loaders.epoch → ∀ {loader}, (cache.tables.get? loader).isSome →
    loaders.isLive loader = true

theorem isLive_of_sweep (h : ((cache.sweep loaders).1.tables.get? loader).isSome) :
    loaders.isLive loader = true := by
  rw [tables_get?_sweep] at h
  split at h
  · next hlive => exact hlive
  · cases h

theorem Swept.sweptEpoch_sweep (h : cache.Swept loaders) :
    (cache.sweep loaders).1.sweptEpoch = loaders.epoch := by
  simp only [sweep, forget]
  exact Nat.max_eq_right h.epoch_le

theorem Swept.sweepIfDue (h : cache.Swept loaders) :
    (cache.sweepIfDue loaders).sweptEpoch = loaders.epoch ∧
      ∀ {loader}, ((cache.sweepIfDue loaders).tables.get? loader).isSome →
        loaders.isLive loader = true := by
  rw [Cache.sweepIfDue]
  split
  · exact ⟨h.sweptEpoch_sweep, isLive_of_sweep⟩
  · next hepoch => exact ⟨not_not.1 hepoch, h.live (not_not.1 hepoch)⟩

theorem sweptEpoch_invalidate (cache : Cache) (loader : LoaderKey) (name : String) :
    (cache.invalidate loader name).1.sweptEpoch = cache.sweptEpoch := by
  rw [invalidate]
  split
  · rw [forget, eraseSlot_eq]
  · rfl

theorem Swept.invalidate (h : cache.Swept loaders) (loader : LoaderKey) (name : String) :
    (cache.invalidate loader name).1.Swept loaders := by
  have hepoch := sweptEpoch_invalidate cache loader name
  refine ⟨hepoch ▸ h.epoch_le, fun heq _ htable => ?_⟩
  rw [hepoch] at heq
  exact h.live heq ((cache.cleared_invalidate loader name).tables htable)

end Cache

namespace Agent
variable {agent : Agent} {operation : Operation} {loader : LoaderKey}

theorem sweptEpoch_cleared (h : agent.cache.Swept agent.loaders) (operation : Operation) :
    (agent.cleared operation).sweptEpoch =
      if operation.sweeps then agent.loaders.epoch else agent.cache.sweptEpoch := by
  cases operation with
  | load loader name bytes =>
    cases name with
    | none => rfl
    | some name => exact h.sweepIfDue.1
  | redefine loader name bytes => exact (h.invalidate loader name).sweepIfDue.1
  | sweep => exact h.sweptEpoch_sweep
  | invalidate loader name => exact Cache.sweptEpoch_invalidate agent.cache loader name
  | evictLoader loader =>
    simp only [cleared, Cache.evictLoader]
    split <;> rfl
  | _ => rfl

theorem isLive_of_cleared (h : agent.cache.Swept agent.loaders) (hsweeps : operation.sweeps = true)
    (htable : ((agent.cleared operation).tables.get? loader).isSome) :
    agent.loaders.isLive loader = true := by
  cases operation with
  | load loader name bytes =>
    cases name with
    | none => cases hsweeps
    | some name => exact h.sweepIfDue.2 htable
  | redefine loader name bytes => exact (h.invalidate loader name).sweepIfDue.2 htable
  | sweep => exact Cache.isLive_of_sweep htable
  | _ => cases hsweeps

theorem serves_of_step (htable : ((agent.step operation).1.cache.tables.get? loader).isSome) :
    (agent.cleared operation).serves agent.loaders loader = true := by
  cases huse : agent.use? operation with
  | some use => exact (used_step huse).serves htable
  | none =>
    obtain ⟨counts, hstep, -⟩ := step_of_unused huse
    rw [hstep] at htable
    rw [Cache.serves, Bool.or_eq_true]
    exact Or.inl htable

theorem sweptEpoch_step (h : agent.cache.Swept agent.loaders) (operation : Operation) :
    (agent.step operation).1.cache.sweptEpoch =
      if operation.sweeps then agent.loaders.epoch else agent.cache.sweptEpoch := by
  rw [← sweptEpoch_cleared h operation]
  cases huse : agent.use? operation with
  | some use => exact (used_step huse).sweptEpoch
  | none =>
    obtain ⟨counts, hstep, -⟩ := step_of_unused huse
    rw [hstep]
    rfl

theorem swept_step (h : agent.cache.Swept agent.loaders) (operation : Operation) :
    (agent.step operation).1.cache.Swept agent.loaders := by
  have hepoch := sweptEpoch_step h operation
  refine ⟨?_, fun heq loader htable => ?_⟩
  · rw [hepoch]
    split
    · exact Nat.le_refl _
    · exact h.epoch_le
  · have hserves := serves_of_step htable
    rw [Cache.serves, Bool.or_eq_true] at hserves
    rcases hserves with hcleared | hlive
    · by_cases hsweeps : operation.sweeps
      · exact isLive_of_cleared h hsweeps hcleared
      · rw [hepoch, if_neg hsweeps] at heq
        exact h.live heq ((cleared_cleared agent operation).tables hcleared)
    · exact hlive

/-- What holds of handles and tables when loaders were registered so many times. -/
structure Registered (count : Nat) (agent : Agent) : Prop where
  loaders : agent.loaders.Sound count
  held_live : ∀ {handle : Nat} {key : LoaderKey}, agent.handles[handle]? = some ⟨key, true⟩ →
    agent.loaders.isLive key = true ∧ key ≠ .boot
  held_once : ∀ {handle other : Nat} {key : LoaderKey}, agent.handles[handle]? = some ⟨key, true⟩ →
    agent.handles[other]? = some ⟨key, true⟩ → handle = other
  known : ∀ {loader}, (agent.cache.tables.get? loader).isSome →
    agent.loaders.isLive loader = true ∨ agent.loaders.Ended loader
  swept : agent.cache.Swept agent.loaders

variable {count : Nat}

theorem registered_ofPolicy (policy : Policy) (capacity : Nat) :
    (ofPolicy policy capacity).Registered 0 where
  loaders := Loaders.sound_initial
  held_live h := nomatch h
  held_once h := nomatch h
  known h := nomatch h
  swept := ⟨Nat.le_refl _, fun _ _ h => nomatch h⟩

theorem Registered.register (h : agent.Registered count) :
    agent.register.1.Registered (count + 1) := by
  have hfresh := h.loaders.fresh_register
  have hsound := h.loaders.register
  rw [Agent.register]
  rcases hregister : agent.loaders.register with ⟨key, after⟩
  rw [hregister] at hfresh hsound
  have hnew : ∀ {handle : Nat} {other : LoaderKey},
      (agent.handles ++ [⟨key, true⟩])[handle]? = some ⟨other, true⟩ →
        agent.handles[handle]? = some ⟨other, true⟩ ∨
          handle = agent.handles.length ∧ other = key := by
    intro handle other hhandle
    rw [List.getElem?_append] at hhandle
    split at hhandle
    · exact Or.inl hhandle
    · next hge =>
      rw [List.getElem?_singleton] at hhandle
      split at hhandle
      · cases hhandle
        exact Or.inr ⟨by omega, rfl⟩
      · cases hhandle
  have hother : ∀ {handle : Nat}, agent.handles[handle]? ≠ some ⟨key, true⟩ := by
    intro handle hhandle
    have hlive := (h.held_live hhandle).1
    rw [hfresh.not_isLive] at hlive
    cases hlive
  refine ⟨hsound, ?_, ?_, ?_, ?_⟩
  · intro handle other hhandle
    rcases hnew hhandle with hold | ⟨-, rfl⟩
    · exact ⟨hfresh.keeps_live (h.held_live hold).1, (h.held_live hold).2⟩
    · refine ⟨hfresh.isLive, ?_⟩
      intro hboot
      exact hfresh.slot_ne_zero h.loaders.toTidy (congrArg LoaderKey.slot hboot)
  · intro handle second other hhandle hsecond
    rcases hnew hhandle with hold | ⟨rfl, rfl⟩
    · rcases hnew hsecond with hold' | ⟨-, rfl⟩
      · exact h.held_once hold hold'
      · exact absurd hold hother
    · rcases hnew hsecond with hold' | ⟨rfl, -⟩
      · exact absurd hold' hother
      · rfl
  · intro loader htable
    exact (h.known htable).imp hfresh.keeps_live hfresh.keeps_ended
  · refine ⟨?_, fun heq loader htable => ?_⟩
    · rw [hfresh.epoch]
      exact h.swept.epoch_le
    · rw [hfresh.epoch] at heq
      exact hfresh.keeps_live (h.swept.live heq htable)

theorem Registered.not_stored (h : agent.Registered count) (name : String) :
    agent.cache.stored? agent.register.2 name = none := by
  have hfresh := h.loaders.fresh_register
  have hnone : agent.cache.tables.get? agent.loaders.register.1 = none := by
    rw [Option.eq_none_iff_forall_ne_some]
    intro table htable
    rcases h.known (Option.isSome_of_eq_some htable) with hlive | hended
    · rw [hfresh.not_isLive] at hlive
      cases hlive
    · exact hfresh.not_ended hended
  change agent.cache.stored? agent.loaders.register.1 name = none
  rw [Cache.stored?, Cache.slot?, hnone]
  rfl

theorem Registered.retire (h : agent.Registered count) (hlt : count < 2 ^ 32)
    (handle : Nat) : (agent.retire handle).1.Registered count := by
  rw [Agent.retire]
  split
  · next key hheld =>
    obtain ⟨hlive, hboot⟩ := h.held_live hheld
    have hepoch : (agent.loaders.retire key).epoch = agent.loaders.epoch + 1 := by
      rw [Loaders.retire_of_live hboot hlive]
    have hold : ∀ {other : Nat} {otherKey : LoaderKey},
        (agent.handles.set handle ⟨key, false⟩)[other]? = some ⟨otherKey, true⟩ →
          agent.handles[other]? = some ⟨otherKey, true⟩ ∧ other ≠ handle := by
      intro other otherKey hother
      rw [List.getElem?_set] at hother
      split at hother
      · split at hother
        · cases hother
        · cases hother
      · next hne => exact ⟨hother, Ne.symm hne⟩
    refine ⟨h.loaders.retire hlt hboot hlive, ?_, ?_, ?_, ?_⟩
    · intro other otherKey hother
      obtain ⟨hbefore, hne⟩ := hold hother
      refine ⟨?_, (h.held_live hbefore).2⟩
      apply Loaders.isLive_retire_of_ne hboot hlive (h.held_live hbefore).1
      rintro rfl
      exact hne (h.held_once hbefore hheld)
    · intro other second otherKey hother hsecond
      exact h.held_once (hold hother).1 (hold hsecond).1
    · intro loader htable
      rcases h.known htable with hbefore | hended
      · by_cases heq : loader = key
        · rw [heq]
          exact Or.inr (h.loaders.ended_retire hlt hboot hlive)
        · exact Or.inl (Loaders.isLive_retire_of_ne hboot hlive hbefore heq)
      · exact Or.inr (h.loaders.keeps_ended hlt hboot hlive hended)
    · have hle := h.swept.epoch_le
      refine ⟨?_, fun heq => ?_⟩
      · rw [hepoch]
        exact Nat.le_succ_of_le hle
      · rw [hepoch] at heq
        change agent.cache.sweptEpoch = _ at heq
        omega
  · exact h

theorem Registered.of_cache (h : agent.Registered count) {cache : Cache}
    (htables : ∀ {loader}, (cache.tables.get? loader).isSome →
      (agent.cache.tables.get? loader).isSome ∨ agent.loaders.isLive loader = true)
    (hswept : cache.Swept agent.loaders) (edition : Edition) :
    Registered count { agent with cache, edition } where
  loaders := h.loaders
  held_live := h.held_live
  held_once := h.held_once
  known htable := (htables htable).elim h.known Or.inl
  swept := hswept

theorem isLive_of_table (htable : ((agent.step operation).1.cache.tables.get? loader).isSome) :
    (agent.cache.tables.get? loader).isSome ∨ agent.loaders.isLive loader = true := by
  have hserves := serves_of_step htable
  rw [Cache.serves, Bool.or_eq_true] at hserves
  exact hserves.imp_left (cleared_cleared agent operation).tables

theorem Registered.load (h : agent.Registered count) (loader : LoaderKey) (name : Option String)
    (bytes : Bytes) : (agent.load loader name bytes).1.Registered count := by
  have htables : ∀ {other},
      ((agent.step (.load loader name bytes)).1.cache.tables.get? other).isSome →
        (agent.cache.tables.get? other).isSome ∨ agent.loaders.isLive other = true :=
    isLive_of_table
  exact h.of_cache htables (swept_step h.swept (.load loader name bytes)) _

theorem Registered.step (h : agent.Registered count) (hlt : count < 2 ^ 32)
    (operation : Operation) :
    (agent.step operation).1.Registered
      (count + if operation.registers then 1 else 0) := by
  have htables : ∀ {loader}, ((agent.step operation).1.cache.tables.get? loader).isSome →
      (agent.cache.tables.get? loader).isSome ∨ agent.loaders.isLive loader = true :=
    isLive_of_table
  have hswept := swept_step h.swept operation
  cases operation with
  | register => exact h.register
  | retire handle => exact h.retire hlt handle
  | _ => exact h.of_cache htables hswept _

theorem Registered.ended_step (h : agent.Registered count) (hlt : count < 2 ^ 32)
    (operation : Operation) {key : LoaderKey} (hended : agent.loaders.Ended key) :
    (agent.step operation).1.loaders.Ended key := by
  cases operation with
  | register => exact h.loaders.fresh_register.keeps_ended hended
  | retire handle =>
    change (agent.retire handle).1.loaders.Ended key
    rw [Agent.retire]
    split
    · next held hheld =>
      obtain ⟨hlive, hboot⟩ := h.held_live hheld
      exact h.loaders.keeps_ended hlt hboot hlive hended
    · exact hended
  | _ => exact hended

def registrations (past : List Operation) : Nat := past.countP Operation.registers

theorem registrations_cons (operation : Operation) (rest : List Operation) :
    registrations (operation :: rest) =
      (if operation.registers then 1 else 0) + registrations rest := by
  rw [registrations, List.countP_cons, Nat.add_comm]
  rfl

theorem Registered.run (h : agent.Registered count) (past : List Operation)
    (hlt : count + registrations past < 2 ^ 32) :
    (agent.run past).1.Registered (count + registrations past) := by
  induction past generalizing agent count with
  | nil => exact h
  | cons operation rest ih =>
    rw [registrations_cons, ← Nat.add_assoc] at hlt ⊢
    exact ih (h.step (by omega) operation) hlt

end Agent

end ClassSieve
