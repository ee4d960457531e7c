import ClassSieve.Proofs.Cache.History
import ClassSieve.Proofs.Cache.Registration

/-!
# Loaders that are retired

Once a loader is retired its table answers no look-up and no search, whether or not it has been
swept, and whether or not its slot has been registered again. A peek does not look at the life of
the loader: it finds what is in the table until the next sweep.
-/
namespace ClassSieve
open ClassFile

namespace Cache
variable {cache : Cache} {loaders : Loaders} {loader : LoaderKey} {name : String}

theorem Swept.slot?_sweepIfDue (h : cache.Swept loaders) (loader : LoaderKey) (name : String) :
    (cache.sweepIfDue loaders).slot? loader name =
      if loaders.isLive loader then cache.slot? loader name else none := by
  rw [Cache.sweepIfDue]
  split
  · exact slot?_sweep cache loaders loader name
  · next hepoch =>
    split
    · rfl
    · next hdead =>
      have hnone : cache.tables.get? loader = none := by
        rw [← Option.not_isSome_iff_eq_none]
        intro htable
        exact hdead (h.live (not_not.1 hepoch) htable)
      rw [slot?, hnone, Option.bind_none]

theorem slot?_invalidate (cache : Cache) (loader : LoaderKey) (name : String) :
    (cache.invalidate loader name).1.slot? loader name = none := by
  rw [invalidate]
  split
  · rw [slot?_forget, slot?_eraseSlot, if_pos ⟨rfl, rfl⟩]
  · next hnone => exact hnone

theorem answerSwept_congr {other : Cache}
    (h : cache.slot? loader name = other.slot? loader name) (loaders : Loaders)
    (edition : Edition) (bytes : Bytes) :
    (cache.answerSwept loaders edition loader name bytes).2 =
      (other.answerSwept loaders edition loader name bytes).2 := by
  rw [answerSwept, answerSwept, h]
  cases other.slot? loader name with
  | some slot =>
    simp only [answerStored]
    split
    · split <;> rfl
    · rfl
  | none =>
    simp only [answerMissing]
    split <;> split <;> rfl

def withoutTable (cache : Cache) (loader : LoaderKey) : Cache :=
  { cache with tables := cache.tables.erase loader }

theorem slot?_withoutTable (cache : Cache) (loader other : LoaderKey) (name : String) :
    (cache.withoutTable loader).slot? other name =
      if loader = other then none else cache.slot? other name := by
  rw [slot?, withoutTable, Table.get?_erase]
  split <;> rfl

theorem Swept.withoutTable (h : cache.Swept loaders) (loader : LoaderKey) :
    (cache.withoutTable loader).Swept loaders := by
  refine ⟨h.epoch_le, fun heq other htable => h.live heq ?_⟩
  rw [Cache.withoutTable, Table.get?_erase] at htable
  split at htable
  · cases htable
  · exact htable

end Cache

namespace Agent
variable {agent : Agent} {operation : Operation} {key : LoaderKey} {count : Nat}

def withoutTable (agent : Agent) (key : LoaderKey) : Agent :=
  { agent with cache := agent.cache.withoutTable key }

theorem answer_withoutTable (h : agent.cache.Swept agent.loaders)
    (hended : agent.loaders.Ended key) {loader : LoaderKey} {name : String} {bytes : Bytes}
    (hlookup : operation.lookup? = some (loader, name, bytes)) :
    (agent.step operation).2 = ((agent.withoutTable key).step operation).2 := by
  rcases Operation.eq_of_lookup? hlookup with rfl | rfl
  · have hslot : (agent.cache.sweepIfDue agent.loaders).slot? loader name =
        ((agent.cache.withoutTable key).sweepIfDue agent.loaders).slot? loader name := by
      rw [h.slot?_sweepIfDue, (h.withoutTable key).slot?_sweepIfDue]
      split
      · next hlive =>
        rw [Cache.slot?_withoutTable, if_neg]
        rintro rfl
        rw [hended.isLive_eq_false] at hlive
        cases hlive
      · rfl
    exact congrArg Answer.lookup (Cache.answerSwept_congr hslot _ _ _)
  · have hnone : ∀ cache : Cache,
        ((cache.invalidate loader name).1.sweepIfDue agent.loaders).slot? loader name = none := by
      intro cache
      rw [Option.eq_none_iff_forall_ne_some]
      intro slot hslot
      have hbefore := Cache.slot?_of_sweepIfDue hslot
      rw [Cache.slot?_invalidate] at hbefore
      cases hbefore
    have hslot := (hnone agent.cache).trans (hnone (agent.cache.withoutTable key)).symm
    exact congrArg Answer.lookup (Cache.answerSwept_congr hslot _ _ _)

/-- A loader that has ended gets no table, and loses the one it has at the next sweep. -/
theorem tables_get?_step (h : agent.cache.Swept agent.loaders) (hended : agent.loaders.Ended key)
    (hgone : agent.cache.tables.get? key = none ∨ operation.sweeps = true) :
    (agent.step operation).1.cache.tables.get? key = none := by
  rw [← Option.not_isSome_iff_eq_none]
  intro htable
  have hserves := serves_of_step htable
  rw [Cache.serves, hended.isLive_eq_false, Bool.or_false] at hserves
  rcases hgone with hnone | hsweeps
  · have hbefore := (cleared_cleared agent operation).tables hserves
    rw [hnone] at hbefore
    cases hbefore
  · have hlive := isLive_of_cleared h hsweeps hserves
    rw [hended.isLive_eq_false] at hlive
    cases hlive

theorem Registered.ended_run (h : agent.Registered count) (hended : agent.loaders.Ended key)
    (later : List Operation) (hlt : count + registrations later < 2 ^ 32) :
    (agent.run later).1.loaders.Ended key ∧
      (agent.cache.tables.get? key = none ∨ later.any Operation.sweeps = true →
        (agent.run later).1.cache.tables.get? key = none) := by
  induction later generalizing agent count with
  | nil => exact ⟨hended, fun hgone => hgone.resolve_right Bool.false_ne_true⟩
  | cons operation rest ih =>
    rw [registrations_cons, ← Nat.add_assoc] at hlt
    obtain ⟨hlast, htable⟩ := ih (h.step (by omega) operation)
      (h.ended_step (by omega) operation hended) hlt
    refine ⟨hlast, fun hgone => htable ?_⟩
    rw [List.any_cons, Bool.or_eq_true, ← or_assoc] at hgone
    exact hgone.imp_left (tables_get?_step h.swept hended)

theorem Registered.ended_retire (h : agent.Registered count) (hlt : count < 2 ^ 32) {handle : Nat}
    (hheld : agent.handles[handle]? = some ⟨key, true⟩) :
    (agent.step (.retire handle)).1.loaders.Ended key := by
  obtain ⟨hlive, hboot⟩ := h.held_live hheld
  change (agent.retire handle).1.loaders.Ended key
  rw [Agent.retire, hheld]
  exact h.loaders.ended_retire hlt hboot hlive

/-- From its retirement on a loader is found by no search, its table makes no difference to any
look-up by name, and from the next sweep on there is nothing of it to peek at. -/
theorem retired_answers_nothing (policy : Policy) (capacity : Nat) (past : List Operation)
    (handle : Nat) (key : LoaderKey) (later : List Operation)
    (hheld : ((ofPolicy policy capacity).run past).1.handles[handle]? = some ⟨key, true⟩)
    (hcount : registrations (past ++ .retire handle :: later) < 2 ^ 32) :
    let agent := ((ofPolicy policy capacity).run (past ++ .retire handle :: later)).1
    (∀ name loader entry,
      (agent.step (.findAny name)).2 = .anywhere (some (loader, entry)) → loader ≠ key) ∧
    (∀ operation loader name bytes, operation.lookup? = some (loader, name, bytes) →
      (agent.step operation).2 = ((agent.withoutTable key).step operation).2) ∧
    (later.any Operation.sweeps = true →
      ∀ name, (agent.step (.peek key name)).2 = .entry none) := by
  intro agent
  have hsplit : registrations (past ++ .retire handle :: later) =
      registrations past + registrations later := by
    rw [registrations, List.countP_append, ← registrations, ← registrations, registrations_cons]
    exact congrArg _ (Nat.zero_add _)
  rw [hsplit] at hcount
  have hbefore : ((ofPolicy policy capacity).run past).1.Registered (registrations past) := by
    have hrun := (registered_ofPolicy policy capacity).run past (by omega)
    rwa [Nat.zero_add] at hrun
  have hretired := hbefore.step (by omega) (.retire handle)
  have hended := hbefore.ended_retire (by omega) hheld
  have hagent : agent = ((((ofPolicy policy capacity).run past).1.step (.retire handle)).1.run
      later).1 := run_append _ _ _
  have hlast := hretired.run later hcount
  obtain ⟨hstays, hgone⟩ := hretired.ended_run hended later hcount
  rw [← hagent] at hlast hstays hgone
  refine ⟨?_, ?_, ?_⟩
  · intro name loader entry hfound
    have hcache : (agent.cache.findAny agent.loaders name).2 = some (loader, entry) :=
      Answer.anywhere.inj hfound
    rcases agent.cache.findAny_cases agent.loaders name with
      hnone | ⟨holder, slot, hlive, -, hholder⟩
    · rw [hnone] at hcache
      cases hcache
    · rw [hholder] at hcache
      cases hcache
      rintro rfl
      rw [hstays.isLive_eq_false] at hlive
      cases hlive
  · intro operation loader name bytes hlookup
    exact answer_withoutTable hlast.swept hstays hlookup
  · intro hsweeps name
    have hslot : agent.cache.slot? key name = none := by
      rw [Cache.slot?, hgone (Or.inr hsweeps), Option.bind_none]
    change Answer.entry (agent.cache.peek key name).2 = .entry none
    rw [Cache.peek_of_none hslot]

theorem retired_answers_nothing_reused :
    let agent := ((ofPolicy .idle 16).run
      [.register, .load ⟨1, 0⟩ (some "A") [], .retire 0, .register,
        .load ⟨1, 1⟩ (some "B") []]).1
    (agent.step (.peek ⟨1, 0⟩ "A")).2 = .entry none ∧
      (agent.step (.load ⟨1, 0⟩ (some "A") [])).2 =
        ((agent.withoutTable ⟨1, 0⟩).step (.load ⟨1, 0⟩ (some "A") [])).2 := by
  obtain ⟨-, hanswers, hpeek⟩ := retired_answers_nothing .idle 16
    [.register, .load ⟨1, 0⟩ (some "A") []] 0 ⟨1, 0⟩ [.register, .load ⟨1, 1⟩ (some "B") []]
    rfl (by decide)
  exact ⟨hpeek rfl "A", hanswers (.load ⟨1, 0⟩ (some "A") []) ⟨1, 0⟩ "A" [] rfl⟩

/-- Until the next sweep a peek finds the class of a loader that is retired. -/
theorem not_peek_eq_none_of_retired :
    ¬ ∀ (policy : Policy) (capacity : Nat) (past : List Operation) (handle : Nat)
        (key : LoaderKey) (later : List Operation) (name : String),
      ((ofPolicy policy capacity).run past).1.handles[handle]? = some ⟨key, true⟩ →
      registrations (past ++ .retire handle :: later) < 2 ^ 32 →
      let agent := ((ofPolicy policy capacity).run (past ++ .retire handle :: later)).1
      (agent.step (.peek key name)).2 = .entry none := by
  intro h
  have hpeek := h .idle 16 [.register, .load ⟨1, 0⟩ (some "A") []] 0 ⟨1, 0⟩ [] "A" rfl (by decide)
  cases hpeek

end Agent

end ClassSieve
