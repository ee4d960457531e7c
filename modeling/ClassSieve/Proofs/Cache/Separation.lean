import ClassSieve.Proofs.Cache.LiveTables

/-!
# Classes apart from one another

An operation on one class leaves every other class with the entry that it has or drops it: a sweep
drops the classes of loaders that have ended, the eviction of a loader the classes of this loader,
and an admission beyond the capacity those that were used longest ago. So what is answered for a
live loader stays the entry of its class until the class is dropped or decided anew.
-/
namespace ClassSieve
open ClassFile

namespace Operation

def key? : Operation → Option ClassKey
  | .load loader (some name) _ | .redefine loader name _ => some (loader, name)
  | .peek loader name | .invalidate loader name => some (loader, name)
  | _ => none

end Operation

namespace Cache
variable {cache after : Cache} {loaders : Loaders} {loader other : LoaderKey}
  {name otherName : String} {kind : UseKind}

theorem slot?_evictLoader (cache : Cache) (loader other : LoaderKey) (name : String) :
    (cache.evictLoader loader).1.slot? other name =
      if loader = other then none else cache.slot? other name := by
  cases htable : cache.tables.get? loader with
  | some table =>
    simp only [evictLoader, htable, slot?, forget, Table.get?_erase]
    split <;> rfl
  | none =>
    simp only [evictLoader, htable]
    split
    · next heq => rw [slot?, ← heq, htable, Option.bind_none]
    · rfl

theorem slot?_invalidate_of_ne (hne : ¬ (loader = other ∧ name = otherName)) :
    (cache.invalidate loader name).1.slot? other otherName = cache.slot? other otherName := by
  rw [invalidate]
  split
  · rw [slot?_forget, slot?_eraseSlot, if_neg hne]
  · rfl

theorem slot?_sweepIfDue_of_kept
    (h : loaders.isLive loader = true ∨ cache.sweptEpoch = loaders.epoch) (name : String) :
    (cache.sweepIfDue loaders).slot? loader name = cache.slot? loader name := by
  rw [sweepIfDue]
  split
  · next hdue => rw [slot?_sweep, if_pos (h.resolve_right hdue)]
  · rfl

theorem stored?_setSlot_of_ne (hne : ¬ (loader = other ∧ name = otherName)) (slot : CacheSlot) :
    (cache.setSlot loader name slot).stored? other otherName = cache.stored? other otherName := by
  rw [stored?, slot?_setSlot, if_neg hne]
  rfl

theorem Sound.stored?_store (h : cache.Sound) (hne : ¬ (loader = other ∧ name = otherName))
    (entry : Entry) :
    (cache.store loader name entry).stored? other otherName = cache.stored? other otherName ∨
      cache.capacity < cache.size + 1 ∧
        (cache.store loader name entry).stored? other otherName = none := by
  cases hafter : (cache.store loader name entry).stored? other otherName with
  | some found =>
    obtain ⟨slot, hslot, rfl⟩ := stored?_eq_some_iff.1 hafter
    have hbefore := slot?_of_store hslot
    rw [if_neg hne] at hbefore
    rw [stored?, hbefore]
    exact Or.inl rfl
  | none =>
    by_cases hfull : cache.capacity < cache.entries + 1
    · rw [h.entries_eq] at hfull
      exact Or.inr ⟨hfull, rfl⟩
    · rw [stored?, store_eq, if_neg hfull, slot?_grown, if_neg hne] at hafter
      exact Or.inl hafter.symm

/-- A use leaves every entry as it is, but for that of its class unless the class is found, and for
those that go when a class is admitted to a full cache. -/
theorem Used.stored?_cases (hused : cache.Used loaders loader name kind after) (h : cache.Sound)
    (hkey : (loader, name) = (other, otherName) → kind = .hit) :
    after.stored? other otherName = cache.stored? other otherName ∨
      kind = .admission ∧ cache.capacity < cache.size + 1 ∧
        after.stored? other otherName = none := by
  cases hused with
  | @hit slot counts stored same =>
    left
    by_cases hsame : loader = other ∧ name = otherName
    · obtain ⟨rfl, rfl⟩ := hsame
      change (cache.touch loader name slot).stored? loader name = _
      rw [stored?_touch stored]
    · exact stored?_setSlot_of_ne hsame _
  | @refresh slot entry counts stored same =>
    refine Or.inl (stored?_setSlot_of_ne ?_ _)
    rintro ⟨rfl, rfl⟩
    cases hkey rfl
  | @admission entry counts missing served same =>
    have hne : ¬ (loader = other ∧ name = otherName) := by
      rintro ⟨rfl, rfl⟩
      cases hkey rfl
    exact ((h.recount counts).stored?_store hne entry).imp_right fun hfull => ⟨rfl, hfull⟩

theorem Used.isSome_slot? (hused : cache.Used loaders loader name kind after) (h : cache.Sound) :
    (after.slot? loader name).isSome := by
  cases hused with
  | @hit slot counts stored same =>
    change ((cache.setSlot loader name _).slot? loader name).isSome
    rw [slot?_setSlot, if_pos ⟨rfl, rfl⟩]
    rfl
  | @refresh slot entry counts stored same =>
    change ((cache.setSlot loader name _).slot? loader name).isSome
    rw [slot?_setSlot, if_pos ⟨rfl, rfl⟩]
    rfl
  | @admission entry counts missing served same =>
    rw [store_eq]
    split
    · exact isSome_slot?_trim_grown (h.recount counts) loader name entry
    · rw [slot?_grown, if_pos ⟨rfl, rfl⟩]
      rfl

end Cache

namespace Agent

def sweepRuns (agent : Agent) : Operation → Bool
  | .load _ (some _) _ | .redefine .. => agent.cache.sweptEpoch ≠ agent.loaders.epoch
  | .sweep => true
  | _ => false

def Overflows (agent : Agent) (operation : Operation) : Prop :=
  ∃ key, agent.use? operation = some ⟨key, .admission⟩ ∧
    agent.cache.capacity < (agent.cleared operation).size + 1

/-- What an operation drops before it answers. -/
inductive Drops (agent : Agent) (loader : LoaderKey) (name : String) : Operation → Prop
  | invalidate : Drops agent loader name (.invalidate loader name)
  | redefine (bytes : Bytes) : Drops agent loader name (.redefine loader name bytes)
  | evictLoader : Drops agent loader name (.evictLoader loader)
  | sweep {operation : Operation} (ended : agent.loaders.isLive loader = false)
      (runs : agent.sweepRuns operation = true) : Drops agent loader name operation

/-- An operation neither removes a class nor decides it anew. -/
structure Leaves (agent : Agent) (loader : LoaderKey) (name : String) (operation : Operation) :
    Prop where
  not_dropped : ¬ agent.Drops loader name operation
  not_trimmed : agent.Overflows operation →
    (agent.step operation).1.cache.stored? loader name ≠ none
  not_refreshed : agent.use? operation ≠ some ⟨(loader, name), .refresh⟩

def LeavesAll (agent : Agent) (loader : LoaderKey) (name : String) : List Operation → Prop
  | [] => True
  | operation :: rest =>
    agent.Leaves loader name operation ∧ (agent.step operation).1.LeavesAll loader name rest

variable {agent : Agent} {operation : Operation} {loader : LoaderKey} {name : String}
  {bytes : Bytes}

theorem slot?_cleared (h : ¬ agent.Drops loader name operation) :
    (agent.cleared operation).slot? loader name = agent.cache.slot? loader name := by
  have hkept (hsweeps : agent.sweepRuns operation =
      decide (agent.cache.sweptEpoch ≠ agent.loaders.epoch)) :
      agent.loaders.isLive loader = true ∨ agent.cache.sweptEpoch = agent.loaders.epoch := by
    by_contra hnot
    rw [not_or, Bool.not_eq_true] at hnot
    exact h (.sweep hnot.1 (hsweeps.trans (decide_eq_true hnot.2)))
  cases operation with
  | load other otherName bytes =>
    cases otherName with
    | none => rfl
    | some otherName => exact Cache.slot?_sweepIfDue_of_kept (hkept rfl) name
  | redefine other otherName bytes =>
    have hne : ¬ (other = loader ∧ otherName = name) := by
      rintro ⟨rfl, rfl⟩
      exact h (.redefine bytes)
    have hsweep := hkept rfl
    rw [← Cache.sweptEpoch_invalidate agent.cache other otherName] at hsweep
    exact (Cache.slot?_sweepIfDue_of_kept hsweep name).trans (Cache.slot?_invalidate_of_ne hne)
  | invalidate other otherName =>
    apply Cache.slot?_invalidate_of_ne
    rintro ⟨rfl, rfl⟩
    exact h .invalidate
  | evictLoader other =>
    apply (Cache.slot?_evictLoader agent.cache other loader name).trans
    rw [if_neg]
    rintro rfl
    exact h .evictLoader
  | sweep =>
    apply (Cache.slot?_sweep agent.cache agent.loaders loader name).trans
    rw [if_pos]
    by_contra hended
    exact h (.sweep (Bool.not_eq_true _ ▸ hended) rfl)
  | _ => rfl

theorem stored?_cleared (h : ¬ agent.Drops loader name operation) :
    (agent.cleared operation).stored? loader name = agent.cache.stored? loader name := by
  rw [Cache.stored?, Cache.stored?, slot?_cleared h]

/-- A class that an operation neither drops nor uses, other than by finding it, keeps its entry, or
goes when a class is admitted beyond the capacity. -/
theorem stored?_step (hsound : agent.cache.Sound) (hdrops : ¬ agent.Drops loader name operation)
    (huse : ∀ kind, agent.use? operation = some ⟨(loader, name), kind⟩ → kind = .hit) :
    (agent.step operation).1.cache.stored? loader name = agent.cache.stored? loader name ∨
      agent.Overflows operation ∧
        (agent.step operation).1.cache.stored? loader name = none := by
  have hcleared := cleared_cleared agent operation
  rw [← stored?_cleared hdrops]
  cases hop : agent.use? operation with
  | none =>
    obtain ⟨counts, hstep, -⟩ := step_of_unused hop
    rw [hstep]
    exact Or.inl rfl
  | some use =>
    obtain ⟨⟨other, otherName⟩, kind⟩ := use
    have hused := used_step hop
    have hhit : (other, otherName) = (loader, name) → kind = .hit := by
      rintro heq
      rw [heq] at hop
      exact huse kind hop
    refine (hused.stored?_cases (hsound.cleared hcleared) hhit).imp_right ?_
    rintro ⟨rfl, hfull, hgone⟩
    rw [hcleared.capacity] at hfull
    exact ⟨⟨_, hop, hfull⟩, hgone⟩

theorem kind_of_use?_of_key?_ne (hkey : operation.key? ≠ some (loader, name)) {kind : UseKind}
    (huse : agent.use? operation = some ⟨(loader, name), kind⟩) : kind = .hit := by
  cases operation with
  | load other otherName bytes =>
    cases otherName with
    | none => cases huse
    | some otherName =>
      exact absurd (congrArg some (Cache.used_answerSwept bytes huse).1.symm) hkey
  | redefine other otherName bytes =>
    exact absurd (congrArg some (Cache.used_answerSwept bytes huse).1.symm) hkey
  | peek other otherName =>
    obtain ⟨found, -, huse⟩ := Option.map_eq_some_iff.1 huse
    cases huse
    rfl
  | findAny otherName =>
    obtain ⟨found, -, huse⟩ := Option.map_eq_some_iff.1 huse
    cases huse
    rfl
  | _ => cases huse

theorem stored?_step_of_key?_ne (hkey : operation.key? ≠ some (loader, name)) :
    (agent.step operation).1.cache.stored? loader name = agent.cache.stored? loader name ∨
      (agent.step operation).1.cache.stored? loader name = none := by
  cases hafter : (agent.step operation).1.cache.stored? loader name with
  | none => exact Or.inr rfl
  | some entry =>
    rcases stored?_of_step hafter with ⟨bytes, answer, hlookup, -⟩ | ⟨-, hbefore⟩
    · rcases Operation.eq_of_lookup? hlookup with rfl | rfl
      · exact absurd rfl hkey
      · exact absurd rfl hkey
    · exact Or.inl hbefore.symm

theorem Leaves.stored?_step (h : agent.Leaves loader name operation)
    (hsound : agent.cache.Sound) {entry : Entry}
    (hstored : agent.cache.stored? loader name = some entry) :
    (agent.step operation).1.cache.stored? loader name = some entry := by
  have hhit : ∀ kind, agent.use? operation = some ⟨(loader, name), kind⟩ → kind = .hit := by
    intro kind huse
    cases kind with
    | hit => rfl
    | refresh => exact absurd huse h.not_refreshed
    | admission =>
      obtain ⟨slot, hslot, -⟩ := Cache.stored?_eq_some_iff.1 hstored
      cases (used_step huse).missing.symm.trans ((slot?_cleared h.not_dropped).trans hslot)
  rcases Agent.stored?_step hsound h.not_dropped hhit with hsame | ⟨hfull, hgone⟩
  · exact hsame.trans hstored
  · exact absurd hgone (h.not_trimmed hfull)

theorem stored?_run_of_leavesAll (hsound : agent.cache.Sound) {entry : Entry}
    (hstored : agent.cache.stored? loader name = some entry) {later : List Operation}
    (h : agent.LeavesAll loader name later) :
    (agent.run later).1.cache.stored? loader name = some entry := by
  induction later generalizing agent with
  | nil => exact hstored
  | cons operation rest ih =>
    exact ih (sound_step hsound operation) (h.1.stored?_step hsound hstored) h.2

theorem answer_peek (agent : Agent) (loader : LoaderKey) (name : String) :
    (agent.step (.peek loader name)).2 = .entry (agent.cache.stored? loader name) := by
  change Answer.entry (agent.cache.peek loader name).2 = _
  rw [Cache.stored?]
  cases hslot : agent.cache.slot? loader name with
  | some slot => rw [Cache.used_peek hslot]; rfl
  | none => rw [Cache.peek_of_none hslot]; rfl

theorem stored?_of_lookup? (hsound : agent.cache.Sound)
    (hlookup : operation.lookup? = some (loader, name, bytes))
    (hlive : agent.loaders.isLive loader = true) :
    ∃ answer, (agent.step operation).2 = .lookup answer ∧
      (agent.step operation).1.cache.stored? loader name = some answer.entry := by
  have huse : ∃ kind, agent.use? operation = some ⟨(loader, name), kind⟩ := by
    have hserves : (agent.cleared operation).serves agent.loaders loader = true := by
      rw [Cache.serves, hlive, Bool.or_true]
    have hof : agent.use? operation =
        (agent.cleared operation).lookupUse? agent.loaders agent.edition loader name := by
      rcases Operation.eq_of_lookup? hlookup with rfl | rfl
      · rfl
      · rfl
    rw [hof, Cache.lookupUse?, hserves]
    split
    · split
      · exact ⟨_, rfl⟩
      · exact ⟨_, rfl⟩
    · exact ⟨_, rfl⟩
  obtain ⟨kind, huse⟩ := huse
  have hsome := (used_step huse).isSome_slot? (hsound.cleared (cleared_cleared agent operation))
  obtain ⟨slot, hslot⟩ := Option.isSome_iff_exists.1 hsome
  have hstored : (agent.step operation).1.cache.stored? loader name = some slot.entry :=
    Cache.stored?_eq_some_iff.2 ⟨slot, hslot, rfl⟩
  rcases stored?_of_step hstored with ⟨_, answer, -, hanswer, hentry⟩ | ⟨hother, -⟩
  · exact ⟨answer, hanswer, hentry ▸ hstored⟩
  · exact absurd hlookup (hother bytes)

/-- At any point of a run an operation leaves every class but the one that it is addressed to with
the entry that it has, or without any: where its loader has ended and a sweep runs, where its loader
is evicted, or where a class is admitted beyond the capacity. What is answered for a live loader is
what a peek finds, until an operation removes the class or decides it anew. -/
theorem classes_apart (edition : Edition) (loaders : Loaders) (handles : List Handle)
    (capacity : Nat) (past : List Operation) :
    let agent := ((withCache edition loaders handles capacity).run past).1
    (∀ operation loader name, operation.key? ≠ some (loader, name) →
      let after := (agent.step operation).1.cache.stored? loader name
      after = agent.cache.stored? loader name ∨
        after = none ∧
          (agent.loaders.isLive loader = false ∧ agent.sweepRuns operation = true ∨
            operation = .evictLoader loader ∨ agent.Overflows operation)) ∧
    ∀ operation loader name bytes, operation.lookup? = some (loader, name, bytes) →
      agent.loaders.isLive loader = true →
      ∃ answer, (agent.step operation).2 = .lookup answer ∧
        ∀ later, (agent.step operation).1.LeavesAll loader name later →
          (((agent.step operation).1.run later).1.step (.peek loader name)).2 =
            .entry (some answer.entry) := by
  intro agent
  have hsound : agent.cache.Sound :=
    ((balanced_withCache edition loaders handles capacity).run past).sound
  constructor
  · intro operation loader name hkey after
    by_cases hcause : agent.loaders.isLive loader = false ∧ agent.sweepRuns operation = true ∨
        operation = .evictLoader loader ∨ agent.Overflows operation
    · exact (stored?_step_of_key?_ne hkey).imp_right fun hnone => ⟨hnone, hcause⟩
    · rw [not_or, not_or] at hcause
      obtain ⟨hswept, hevicted, hfits⟩ := hcause
      have hdrops : ¬ agent.Drops loader name operation := by
        intro hdrops
        cases hdrops with
        | invalidate => exact hkey rfl
        | redefine bytes => exact hkey rfl
        | evictLoader => exact hevicted rfl
        | sweep ended runs => exact hswept ⟨ended, runs⟩
      have hkept := stored?_step hsound hdrops fun _ => kind_of_use?_of_key?_ne hkey
      exact Or.inl (hkept.resolve_right fun hfull => hfits hfull.1)
  · intro operation loader name bytes hlookup hlive
    obtain ⟨answer, hanswer, hstored⟩ := stored?_of_lookup? hsound hlookup hlive
    refine ⟨answer, hanswer, fun later hleaves => ?_⟩
    rw [answer_peek, stored?_run_of_leavesAll (sound_step hsound operation) hstored hleaves]

theorem classes_apart_swept :
    let agent := ((withCache (.first .idle) .initial [] 16).run
      [.register, .load ⟨1, 0⟩ (some "A") [], .load .boot (some "A") [], .retire 0]).1
    let next := agent.step (.load .boot (some "B") [])
    (agent.cache.stored? ⟨1, 0⟩ "A").isSome ∧ next.1.cache.stored? ⟨1, 0⟩ "A" = none ∧
      next.1.cache.stored? .boot "A" = agent.cache.stored? .boot "A" ∧
      ∃ answer, next.2 = .lookup answer ∧
        ((next.1.run [.load .boot (some "C") []]).1.step (.peek .boot "B")).2 =
          .entry (some answer.entry) := by
  intro agent next
  have hleaves : next.1.LeavesAll .boot "B" [.load .boot (some "C") []] := by
    refine ⟨⟨?_, fun _ => Option.isSome_iff_ne_none.1 (by decide +kernel), by decide +kernel⟩,
      trivial⟩
    intro hdrops
    cases hdrops with
    | sweep ended runs => exact absurd ended (by decide +kernel)
  obtain ⟨hothers, hanswers⟩ := classes_apart (.first .idle) .initial [] 16
    [.register, .load ⟨1, 0⟩ (some "A") [], .load .boot (some "A") [], .retire 0]
  have hretired := hothers (.load .boot (some "B") []) ⟨1, 0⟩ "A" (by decide)
  have hboot := hothers (.load .boot (some "B") []) .boot "A" (by decide)
  obtain ⟨answer, hanswer, hpeek⟩ := hanswers (.load .boot (some "B") []) .boot "B" [] rfl rfl
  refine ⟨rfl, ?_, ?_, answer, hanswer, hpeek _ hleaves⟩
  · rcases hretired with hsame | ⟨hnone, -⟩
    · cases hsame
    · exact hnone
  · rcases hboot with hsame | ⟨hnone, -⟩
    · exact hsame
    · cases hnone

end Agent

end ClassSieve
