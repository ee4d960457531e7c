import ClassSieve.Proofs.Cache.Capacity
import ClassSieve.Proofs.Cache.Registration
import ClassSieve.Proofs.Loaders.LiveKeys

/-!
# Tables of live loaders

Behind a look-up by name every table is that of a live loader, however many loaders came and went
before it. A loader that is not live is answered from the bytes at hand and leaves nothing behind.
-/
namespace ClassSieve
open ClassFile

theorem Table.isSome_get?_of_mem {κ α : Type} [DecidableEq κ] {table : Table κ α} {entry : κ × α}
    (h : entry ∈ table) : (table.get? entry.1).isSome := by
  rw [get?, Option.isSome_map, List.find?_isSome]
  exact ⟨entry, h, decide_eq_true rfl⟩

namespace Cache
variable {cache : Cache} {loaders : Loaders} {loader : LoaderKey}

theorem Distinct.loaderCount_le (h : cache.Distinct)
    (hlive : ∀ entry ∈ cache.tables, loaders.isLive entry.1 = true) :
    cache.loaderCount ≤ loaders.liveCount := by
  have hlength : cache.loaderCount = cache.tables.keys.length := by
    rw [loaderCount, Table.keys, List.length_map]
  rw [hlength]
  apply Loaders.length_le_liveCount h.loaders
  intro key hkey
  obtain ⟨entry, hentry, rfl⟩ := List.mem_map.1 hkey
  exact hlive entry hentry

theorem answerSwept_of_not_serves (hserves : cache.serves loaders loader = false)
    (edition : Edition) (name : String) (bytes : Bytes) :
    let entry := Entry.compute edition (some name) bytes
    cache.answerSwept loaders edition loader name bytes =
      (cache.recount { countParse cache.counts entry with uncached := cache.counts.uncached + 1 },
        ⟨entry, true⟩) := by
  intro entry
  have hnone : cache.slot? loader name = none := by
    rw [Cache.serves, Bool.or_eq_false_iff, Option.isSome_eq_false_iff,
      Option.isNone_iff_eq_none] at hserves
    rw [slot?, hserves.1, Option.bind_none]
  rw [answerSwept, hnone]
  simp only [hserves, answerMissing]
  rfl

end Cache

namespace Operation
variable {operation : Operation} {loader : LoaderKey} {name : String} {bytes : Bytes}

theorem sweeps_of_lookup? (h : operation.lookup? = some (loader, name, bytes)) :
    operation.sweeps = true := by
  rcases eq_of_lookup? h with rfl | rfl
  · rfl
  · rfl

end Operation

namespace Agent
variable {agent : Agent} {operation : Operation} {loader : LoaderKey} {name : String}
  {bytes : Bytes} {count : Nat}

theorem step_of_lookup? (agent : Agent) (h : operation.lookup? = some (loader, name, bytes)) :
    agent.step operation =
      let answered :=
        (agent.cleared operation).answerSwept agent.loaders agent.edition loader name bytes
      ({ agent with cache := answered.1 }, .lookup answered.2) := by
  rcases Operation.eq_of_lookup? h with rfl | rfl
  · rfl
  · rfl

theorem Registered.withCache (h : agent.Registered count) (edition : Edition) (capacity : Nat) :
    (Agent.withCache edition agent.loaders agent.handles capacity).Registered count where
  loaders := h.loaders
  held_live := h.held_live
  held_once := h.held_once
  known htable := nomatch htable
  swept := ⟨Nat.le_refl _, fun _ _ htable => nomatch htable⟩

theorem isLive_of_mem_tables (h : agent.cache.Swept agent.loaders)
    (hlookup : operation.lookup? = some (loader, name, bytes)) {entry : LoaderKey × ClassTable}
    (hentry : entry ∈ (agent.step operation).1.cache.tables) :
    agent.loaders.isLive entry.1 = true := by
  have hepoch := sweptEpoch_step h operation
  rw [if_pos (Operation.sweeps_of_lookup? hlookup)] at hepoch
  exact (swept_step h operation).live hepoch (Table.isSome_get?_of_mem hentry)

theorem not_serves_of_not_live (h : agent.cache.Swept agent.loaders)
    (hlookup : operation.lookup? = some (loader, name, bytes))
    (hdead : agent.loaders.isLive loader = false) :
    (agent.cleared operation).serves agent.loaders loader = false := by
  rw [Bool.eq_false_iff, Cache.serves, hdead, Bool.or_false]
  intro htable
  have hlive := isLive_of_cleared h (Operation.sweeps_of_lookup? hlookup) htable
  rw [hdead] at hlive
  cases hlive

theorem step_of_not_live (h : agent.cache.Swept agent.loaders)
    (hlookup : operation.lookup? = some (loader, name, bytes))
    (hdead : agent.loaders.isLive loader = false) :
    let entry := Entry.compute agent.edition (some name) bytes
    let next := (agent.step operation).1.cache
    (agent.step operation).2 = .lookup ⟨entry, true⟩ ∧
      next.counts = { Cache.countParse agent.cache.counts entry with
        uncached := agent.cache.counts.uncached + 1 } ∧
      next.tables.get? loader = none ∧ ∀ other, next.stored? loader other = none := by
  intro entry next
  have hserves := not_serves_of_not_live h hlookup hdead
  have hcounts := (cleared_cleared agent operation).counts
  have hstep := step_of_lookup? agent hlookup
  rw [Cache.answerSwept_of_not_serves hserves] at hstep
  have hnone : next.tables.get? loader = none := by
    rw [← Option.not_isSome_iff_eq_none]
    intro htable
    have hserved := serves_of_step htable
    rw [hserves] at hserved
    cases hserved
  refine ⟨congrArg Prod.snd hstep, ?_, hnone, ?_⟩
  · rw [← hcounts]
    exact congrArg (fun pair => pair.1.cache.counts) hstep
  · intro other
    rw [Cache.stored?, Cache.slot?, hnone]
    rfl

/-- Behind each look-up by name the tables are those of live loaders, so there are no more of them
than live loaders. A look-up for a loader that is not live is answered from the bytes, counted as
uncached, and leaves no table and no entry of the loader. -/
theorem tables_of_live_loaders (policy : Policy) (edition : Edition) (capacity : Nat)
    (before past : List Operation) (operation : Operation) (loader : LoaderKey) (name : String)
    (bytes : Bytes) (hlookup : operation.lookup? = some (loader, name, bytes))
    (hcount : registrations (before ++ past) < 2 ^ 32) :
    let known := ((ofPolicy policy capacity).run before).1
    let agent := ((withCache edition known.loaders known.handles capacity).run past).1
    let next := (agent.step operation).1
    (∀ entry ∈ next.cache.tables, next.loaders.isLive entry.1 = true) ∧
      next.cache.loaderCount ≤ next.loaders.liveCount ∧
      (agent.loaders.isLive loader = false →
        let entry := Entry.compute agent.edition (some name) bytes
        (agent.step operation).2 = .lookup ⟨entry, true⟩ ∧
          next.cache.counts = { Cache.countParse agent.cache.counts entry with
            uncached := agent.cache.counts.uncached + 1 } ∧
          next.cache.tables.get? loader = none ∧
          ∀ other, next.cache.stored? loader other = none) := by
  intro known agent next
  rw [registrations, List.countP_append, ← registrations, ← registrations] at hcount
  have hknown := (registered_ofPolicy policy capacity).run before (by omega)
  have hregistered := (hknown.withCache edition capacity).run past (by omega)
  have hbalanced := ((balanced_withCache edition known.loaders known.handles capacity).run
    past).step operation
  have hsame : next.loaders = agent.loaders := by
    rw [show next = _ from congrArg Prod.fst (step_of_lookup? agent hlookup)]
  have hlive : ∀ entry ∈ next.cache.tables, next.loaders.isLive entry.1 = true := by
    intro entry hentry
    rw [hsame]
    exact isLive_of_mem_tables hregistered.swept hlookup hentry
  refine ⟨hlive, hbalanced.sound.distinct.loaderCount_le hlive, ?_⟩
  exact step_of_not_live hregistered.swept hlookup

theorem tables_of_live_loaders_retired :
    let agent := ((ofPolicy .idle 16).run
      [.register, .load ⟨1, 0⟩ (some "A") [], .retire 0]).1
    let next := (agent.step (.load ⟨1, 0⟩ (some "B") [])).1
    agent.cache.loaderCount = 1 ∧ next.cache.loaderCount ≤ 1 ∧ next.cache.counts.uncached = 1 ∧
      next.cache.stored? ⟨1, 0⟩ "A" = none := by
  intro agent next
  obtain ⟨-, hle, hdead⟩ := tables_of_live_loaders .idle (.first .idle) 16 []
    [.register, .load ⟨1, 0⟩ (some "A") [], .retire 0] (.load ⟨1, 0⟩ (some "B") []) ⟨1, 0⟩ "B" []
    rfl (by decide)
  obtain ⟨-, hcounts, -, hstored⟩ := hdead rfl
  exact ⟨rfl, hle, congrArg CacheCounts.uncached hcounts, hstored "A"⟩

end Agent

end ClassSieve
