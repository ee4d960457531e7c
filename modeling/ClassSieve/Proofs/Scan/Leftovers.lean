import ClassSieve.Proofs.Cache.ParseEconomy
import ClassSieve.Proofs.Scan.Contents

/-!
# What a scan leaves behind

While an archive is loaded, the tables are those of its loaders once the first class is answered:
this look-up drops what the archive before has left. The loaders are retired with the archive, so
the sweep that ends a scan finds no live loader with a table. No look-up of a scan is a refresh,
since the policy stays the same.
-/
namespace ClassSieve
open ClassFile Archive Scan

theorem Table.set_of_get?_eq_none {κ α : Type} [DecidableEq κ] {table : Table κ α} {key : κ}
    (h : table.get? key = none) (value : α) : table.set key value = table ++ [(key, value)] := by
  induction table with
  | nil => rfl
  | cons entry rest ih =>
    rw [Table.get?_cons] at h
    split at h
    · cases h
    · next hne => rw [Table.set, if_neg hne, ih h, List.cons_append]

namespace Agent
variable {agent after : Agent} {held rest : List HeldLoader} {first : HeldLoader} {key : LoaderKey}

/-! ## Loaders that are held -/

/-- The handles are held, and stand for live loaders with a key of their own each. -/
structure Holds (held : List HeldLoader) (agent : Agent) : Prop where
  tidy : agent.loaders.Tidy
  handles : ∀ {loader}, loader ∈ held → agent.handles[loader.handle]? = some ⟨loader.key, true⟩
  live : ∀ {loader}, loader ∈ held → agent.loaders.isLive loader.key = true ∧ loader.key ≠ .boot
  distinct : (held.map HeldLoader.key).Nodup

theorem Holds.isLive (h : agent.Holds held) (hkey : key ∈ held.map HeldLoader.key) :
    agent.loaders.isLive key = true := by
  obtain ⟨loader, hloader, rfl⟩ := List.mem_map.1 hkey
  exact (h.live hloader).1

theorem holds_nil (h : agent.loaders.Tidy) : agent.Holds [] where
  tidy := h
  handles hmem := nomatch hmem
  live hmem := nomatch hmem
  distinct := List.nodup_nil

theorem Holds.withCache (h : agent.Holds held) (cache : Cache) : { agent with cache }.Holds held :=
  ⟨h.tidy, h.handles, h.live, h.distinct⟩

theorem Holds.register (h : agent.Holds held) :
    agent.register.1.Holds (held ++ [⟨agent.handles.length, agent.register.2⟩]) := by
  have htidy := h.tidy.register
  have hfresh := h.tidy.fresh_register
  rw [Agent.register]
  rcases hregister : agent.loaders.register with ⟨key, loaders⟩
  rw [hregister] at hfresh htidy
  refine ⟨htidy, ?_, ?_, ?_⟩
  · intro loader hloader
    rcases List.mem_append.1 hloader with hold | hnew
    · have hhandle := h.handles hold
      exact (List.getElem?_append_left (List.getElem?_eq_some_iff.1 hhandle).1).trans hhandle
    · cases List.mem_singleton.1 hnew
      exact List.getElem?_concat_length
  · intro loader hloader
    rcases List.mem_append.1 hloader with hold | hnew
    · exact ⟨hfresh.keeps_live (h.live hold).1, (h.live hold).2⟩
    · cases List.mem_singleton.1 hnew
      refine ⟨hfresh.isLive, fun hboot => ?_⟩
      exact hfresh.slot_ne_zero h.tidy (congrArg LoaderKey.slot hboot)
  · rw [List.map_append, List.map_singleton, List.nodup_append]
    refine ⟨h.distinct, List.nodup_singleton _, ?_⟩
    rintro other hother _ hnew rfl
    cases List.mem_singleton.1 hnew
    have hlive := h.isLive hother
    rw [hfresh.not_isLive] at hlive
    cases hlive

def retireAll (agent : Agent) (held : List HeldLoader) : Agent :=
  held.foldl (fun agent loader => (agent.retire loader.handle).1) agent

/-- `after` is `agent` without the loaders that it held. -/
structure Retired (held : List HeldLoader) (agent after : Agent) : Prop where
  tidy : after.loaders.Tidy
  cache_eq : after.cache = agent.cache
  edition_eq : after.edition = agent.edition
  epoch_eq : after.loaders.epoch = agent.loaders.epoch + held.length
  moved : ∀ {key}, key ∈ held.map HeldLoader.key → after.loaders.Moved key
  keeps_moved : ∀ {key}, agent.loaders.Moved key → (∀ loader ∈ held, key.slot ≠ loader.key.slot) →
    after.loaders.Moved key

theorem Holds.retire (h : agent.Holds (first :: rest)) :
    (agent.retire first.handle).1.Holds rest ∧
      agent.Retired [first] (agent.retire first.handle).1 := by
  have hhandle := h.handles List.mem_cons_self
  obtain ⟨hlive, hboot⟩ := h.live List.mem_cons_self
  obtain ⟨hne, hdistinct⟩ := List.nodup_cons.1 h.distinct
  have hother : ∀ {loader}, loader ∈ rest → loader.key ≠ first.key := by
    intro loader hloader heq
    rw [← heq] at hne
    exact hne (List.mem_map_of_mem hloader)
  rw [Agent.retire, hhandle]
  refine ⟨⟨h.tidy.retire hboot hlive, ?_, ?_, hdistinct⟩,
    h.tidy.retire hboot hlive, rfl, rfl, ?_, ?_, ?_⟩
  · intro loader hloader
    have hold := h.handles (List.mem_cons_of_mem _ hloader)
    rw [List.getElem?_set_ne]
    · exact hold
    · intro heq
      rw [← heq, hhandle, Option.some.injEq, Handle.mk.injEq] at hold
      exact hother hloader hold.1.symm
  · intro loader hloader
    obtain ⟨hlater, hnotBoot⟩ := h.live (List.mem_cons_of_mem _ hloader)
    exact ⟨Loaders.isLive_retire_of_ne hboot hlive hlater (hother hloader), hnotBoot⟩
  · exact congrArg Loaders.epoch (Loaders.retire_of_live hboot hlive)
  · intro key hkey
    cases List.mem_singleton.1 hkey
    exact Loaders.moved_retire hboot hlive
  · intro key hmoved hslots
    exact hmoved.retire hboot hlive (hslots first List.mem_cons_self)

theorem Holds.retireAll (h : agent.Holds held) : agent.Retired held (agent.retireAll held) := by
  induction held generalizing agent with
  | nil => exact ⟨h.tidy, rfl, rfl, rfl, fun hkey => (nomatch hkey), fun hmoved _ => hmoved⟩
  | cons first rest ih =>
    obtain ⟨hholds, hfirst⟩ := h.retire
    have hrest := ih hholds
    -- the loaders are live at the same time, so they are in different slots
    have hslot : ∀ loader ∈ rest, first.key.slot ≠ loader.key.slot := by
      intro loader hloader
      apply Loaders.slot_ne_of_isLive (h.live (List.mem_cons_of_mem _ hloader)).1
        (h.live List.mem_cons_self).1
      intro heq
      apply (List.nodup_cons.1 h.distinct).1
      rw [heq]
      exact List.mem_map_of_mem hloader
    refine ⟨hrest.tidy, hrest.cache_eq.trans hfirst.cache_eq,
      hrest.edition_eq.trans hfirst.edition_eq, ?_, ?_, ?_⟩
    · have hepoch := hrest.epoch_eq
      rw [hfirst.epoch_eq, List.length_singleton] at hepoch
      rw [List.length_cons, ← Nat.add_assoc, Nat.add_right_comm]
      exact hepoch
    · intro key hkey
      rw [List.map_cons, List.mem_cons] at hkey
      rcases hkey with rfl | hlater
      · exact hrest.keeps_moved (hfirst.moved List.mem_cons_self) hslot
      · exact hrest.moved hlater
    · intro key hmoved hslots
      apply hrest.keeps_moved
      · apply hfirst.keeps_moved hmoved
        intro loader hloader
        cases List.mem_singleton.1 hloader
        exact hslots first List.mem_cons_self
      · exact fun loader hloader => hslots loader (List.mem_cons_of_mem _ hloader)

/-! ## Tables -/

/-- The tables are those of loaders that are held, or were left by loaders whose retirement the next
look-up notices. -/
structure Ready (held : List HeldLoader) (agent : Agent) : Prop where
  holds : agent.Holds held
  epoch_le : agent.cache.sweptEpoch ≤ agent.loaders.epoch
  known : ∀ {key}, (agent.cache.tables.get? key).isSome → key ∈ held.map HeldLoader.key ∨
    agent.loaders.Moved key ∧ agent.cache.sweptEpoch ≠ agent.loaders.epoch

theorem ready_ofPolicy (policy : Policy) (capacity : Nat) :
    (ofPolicy policy capacity).Ready [] where
  holds := holds_nil Loaders.tidy_initial
  epoch_le := Nat.le_refl _
  known h := nomatch h

theorem Ready.swept (h : agent.Ready held) : agent.cache.Swept agent.loaders := by
  refine ⟨h.epoch_le, fun hepoch key htable => ?_⟩
  rcases h.known htable with hheld | ⟨-, hne⟩
  · exact h.holds.isLive hheld
  · exact absurd hepoch hne

theorem Ready.register (h : agent.Ready held) :
    agent.register.1.Ready (held ++ [⟨agent.handles.length, agent.register.2⟩]) := by
  have hfresh : agent.loaders.Fresh agent.register.2 agent.register.1.loaders :=
    h.holds.tidy.fresh_register
  refine ⟨h.holds.register, ?_, fun htable => ?_⟩
  · rw [hfresh.epoch]
    exact h.epoch_le
  · rw [hfresh.epoch, List.map_append, List.mem_append]
    rcases h.known htable with hheld | ⟨hmoved, hne⟩
    · exact Or.inl (Or.inl hheld)
    · exact Or.inr ⟨hfresh.keeps_moved hmoved, hne⟩

theorem Ready.load (h : agent.Ready held) (hkey : key ∈ held.map HeldLoader.key) (name : String)
    (bytes : Bytes) :
    (agent.load key (some name) bytes).1.Ready held ∧
      (agent.load key (some name) bytes).1.cache.sweptEpoch = agent.loaders.epoch := by
  have hepoch : (agent.load key (some name) bytes).1.cache.sweptEpoch = agent.loaders.epoch :=
    sweptEpoch_step h.swept (.load key (some name) bytes)
  refine ⟨⟨h.holds.withCache _, hepoch.le, ?_⟩, hepoch⟩
  intro other htable
  have hafter : ((agent.cleared (.load key (some name) bytes)).tables.get? other).isSome ∨
      other = key := Cache.tables_answerSwept htable
  left
  rcases hafter with hcleared | rfl
  · have hlive := isLive_of_cleared h.swept rfl hcleared
    rcases h.known ((cleared_cleared agent _).tables hcleared) with hheld | ⟨hmoved, -⟩
    · exact hheld
    · rw [hmoved.isLive_eq_false] at hlive
      cases hlive
  · exact hkey

theorem Ready.loadAnonymous (h : agent.Ready held) (key : LoaderKey) (bytes : Bytes) :
    (agent.load key none bytes).1.Ready held :=
  ⟨h.holds.withCache _, h.epoch_le, h.known⟩

theorem Ready.retireAll (h : agent.Ready held)
    (hloaded : held = [] ∨ agent.cache.sweptEpoch = agent.loaders.epoch) :
    (agent.retireAll held).Ready [] := by
  have hretired := h.holds.retireAll
  refine ⟨holds_nil hretired.tidy, ?_, fun htable => Or.inr ?_⟩
  · rw [hretired.cache_eq, hretired.epoch_eq]
    exact Nat.le_add_right_of_le h.epoch_le
  · rw [hretired.cache_eq] at htable ⊢
    rw [hretired.epoch_eq]
    have hle := h.epoch_le
    rcases h.known htable with hheld | ⟨hmoved, hne⟩
    · refine ⟨hretired.moved hheld, ?_⟩
      have hpos : 0 < held.length := by
        obtain ⟨loader, hloader, -⟩ := List.mem_map.1 hheld
        exact List.length_pos_of_mem hloader
      omega
    · have hnil : held = [] := hloaded.resolve_right hne
      refine ⟨hretired.keeps_moved hmoved ?_, ?_⟩
      · intro loader hloader
        rw [hnil] at hloader
        cases hloader
      · omega

theorem Ready.sweep (h : agent.Ready []) :
    (agent.cache.sweep agent.loaders).1.tables = [] := by
  rw [Cache.tables_sweep, List.filter_eq_nil_iff]
  intro entry hentry hlive
  rcases h.known (Table.isSome_get?_of_mem hentry) with hheld | ⟨hmoved, -⟩
  · cases hheld
  · rw [hmoved.isLive_eq_false] at hlive
    cases hlive

/-! ## Counts -/

/-- So many classes were looked up under a policy, which is in force and decided all entries. -/
structure Tallied (edition : Edition) (lookups : Nat) (agent : Agent) : Prop where
  edition_eq : agent.edition = edition
  current : ∀ loader name, agent.staleness loader name = 0
  lookups_eq : agent.cache.counts.lookups = lookups
  refreshes_eq : agent.cache.counts.refreshes = 0

variable {edition : Edition} {lookups : Nat}

theorem tallied_ofPolicy (policy : Policy) (capacity : Nat) :
    (ofPolicy policy capacity).Tallied (.first policy) 0 where
  edition_eq := rfl
  current _ _ := rfl
  lookups_eq := rfl
  refreshes_eq := rfl

theorem Tallied.of_eq (h : agent.Tallied edition lookups) (hcache : after.cache = agent.cache)
    (hedition : after.edition = agent.edition) : after.Tallied edition lookups := by
  refine ⟨hedition.trans h.edition_eq, fun loader name => ?_, ?_, ?_⟩
  · have hcurrent := h.current loader name
    rw [staleness] at hcurrent ⊢
    rw [hcache, hedition]
    exact hcurrent
  · rw [hcache]
    exact h.lookups_eq
  · rw [hcache]
    exact h.refreshes_eq

theorem le_generation_of_staleness {loader : LoaderKey} {name : String} {entry : Entry}
    (h : agent.staleness loader name = 0)
    (hentry : agent.cache.stored? loader name = some entry) :
    agent.edition.generation ≤ entry.generation := by
  rw [staleness, hentry] at h
  exact Nat.le_of_sub_eq_zero h

theorem Tallied.not_refresh (h : agent.Tallied edition lookups) (loader : LoaderKey)
    (name : Option String) (bytes : Bytes) :
    agent.lookupKind? (.load loader name bytes) ≠ some .refresh := by
  intro hkind
  cases name with
  | none => cases hkind
  | some name =>
    rw [lookupKind?, Cache.lookupKind, Option.some.injEq] at hkind
    split at hkind
    · next slot hslot =>
      have hbefore := (cleared_cleared agent _).slots hslot
      have hle := le_generation_of_staleness (h.current loader name)
        (Cache.stored?_eq_some_iff.2 ⟨slot, hbefore, rfl⟩)
      rw [if_neg (by omega)] at hkind
      cases hkind
    · split at hkind <;> cases hkind

theorem Tallied.load (h : agent.Tallied edition lookups) (loader : LoaderKey)
    (name : Option String) (bytes : Bytes) :
    (agent.load loader name bytes).1.Tallied edition (lookups + 1) := by
  have hlookups := lookups_step agent (.load loader name bytes)
  have hrefreshes := of_step agent (.load loader name bytes) .refresh
  rw [if_neg (h.not_refresh loader name bytes)] at hrefreshes
  refine ⟨h.edition_eq, ?_, ?_, ?_⟩
  · intro other otherName
    change (agent.step (.load loader name bytes)).1.staleness other otherName = 0
    rw [staleness]
    split
    · next entry hentry =>
      rcases stored?_of_step hentry with ⟨given, answer, hlookup, -, -⟩ | ⟨-, hbefore⟩
      · have hzero := staleness_of_lookup? agent hlookup
        rw [staleness, hentry] at hzero
        exact hzero
      · have hle := le_generation_of_staleness (h.current other otherName) hbefore
        exact Nat.sub_eq_zero_of_le hle
    · rfl
  · rw [h.lookups_eq] at hlookups
    exact hlookups
  · exact hrefreshes.trans h.refreshes_eq

end Agent

namespace Scan
variable {edition : Edition} {rows : Nat}

/-! ## Archives -/

namespace ArchiveRun
variable {run : ArchiveRun}

def held (run : ArchiveRun) : List HeldLoader := run.loaders.map Prod.snd

theorem finish_eq (run : ArchiveRun) : run.finish = run.agent.retireAll run.held := by
  rw [finish, Agent.retireAll, held, List.foldl_map]

theorem ready_loader (h : run.agent.Ready run.held) (release : Option Nat) :
    let next := run.loader release
    next.1.agent.Ready next.1.held ∧ next.2 ∈ next.1.held.map HeldLoader.key ∧
      next.1.agent.cache = run.agent.cache ∧ next.1.agent.edition = run.agent.edition := by
  rw [loader]
  cases hget : run.loaders.get? release with
  | some loader =>
    refine ⟨h, ?_, rfl, rfl⟩
    obtain ⟨entry, hfind, rfl⟩ := Option.map_eq_some_iff.1 hget
    exact List.mem_map_of_mem (List.mem_map_of_mem (List.mem_of_find?_eq_some hfind))
  | none =>
    have hready := h.register
    simp only [held, Table.set_of_get?_eq_none hget, List.map_append, List.map_singleton]
    refine ⟨hready, ?_, rfl, rfl⟩
    exact List.mem_append_right _ List.mem_cons_self

theorem ready_load (hready : run.agent.Ready run.held) (htallied : run.agent.Tallied edition rows)
    (source : String) (archived : ArchivedClass) :
    let after := (run.load source archived).1
    after.agent.Ready after.held ∧ after.agent.Tallied edition (rows + 1) ∧
      after.agent.cache.sweptEpoch = after.agent.loaders.epoch := by
  obtain ⟨hloader, hkey, hcache, hedition⟩ := ready_loader hready archived.release
  obtain ⟨hloaded, hepoch⟩ := hloader.load hkey archived.className archived.bytes
  have hcounted := (htallied.of_eq hcache hedition).load (run.loader archived.release).2
    (some archived.className) archived.bytes
  exact ⟨hloaded, hcounted, hepoch⟩

theorem ready_loadAll (hready : run.agent.Ready run.held)
    (htallied : run.agent.Tallied edition rows)
    (hloaded : run.held = [] ∨ run.agent.cache.sweptEpoch = run.agent.loaders.epoch)
    (source : String) (classes : List ArchivedClass) :
    let after := (run.loadAll source classes).1
    after.finish.Ready [] ∧ after.finish.Tallied edition (rows + classes.length) := by
  induction classes generalizing run rows with
  | nil =>
    intro after
    have hretired := hready.holds.retireAll
    rw [finish_eq]
    exact ⟨hready.retireAll hloaded, htallied.of_eq hretired.cache_eq hretired.edition_eq⟩
  | cons archived rest ih =>
    obtain ⟨hnext, hcounted, hepoch⟩ := ready_load hready htallied source archived
    rw [List.length_cons, Nat.add_comm rest.length, ← Nat.add_assoc]
    exact ih hnext hcounted (Or.inr hepoch)

end ArchiveRun

/-! ## Scans -/

theorem ready_scan {agent : Agent} (hready : agent.Ready []) (htallied : agent.Tallied edition rows)
    (content : Content) :
    (content.scan agent).1.Ready [] ∧
      (content.scan agent).1.Tallied edition (rows + content.places.length) := by
  cases content with
  | archive source classes =>
    rw [Content.places, List.length_map]
    have hstart : (ArchiveRun.start agent).agent.Ready (ArchiveRun.start agent).held := hready
    exact ArchiveRun.ready_loadAll hstart htallied (Or.inl rfl) source classes
  | classFile source bytes =>
    exact ⟨hready.loadAnonymous .boot bytes, htallied.load .boot none bytes⟩
  | unreadable => exact ⟨hready, htallied⟩

theorem ready_scanContents {agent : Agent} (hready : agent.Ready [])
    (htallied : agent.Tallied edition rows) (contents : List Content) :
    (scanContents agent contents).1.Ready [] ∧
      (scanContents agent contents).1.Tallied edition
        (rows + (contents.flatMap Content.places).length) := by
  induction contents generalizing agent rows with
  | nil => exact ⟨hready, htallied⟩
  | cons content rest ih =>
    obtain ⟨hnext, hcounted⟩ := ready_scan hready htallied content
    rw [List.flatMap_cons, List.length_append, ← Nat.add_assoc]
    exact ih hnext hcounted

/-- A scan reads its sources one after the other, and its report depends on what it reads alone.
Behind it no table and no entry is left in the cache. None of its look-ups is a refresh, and there
is a look-up for every row; every row is counted under one decision, and those without a class under
the third. The rows are those of the classes in the order in which they were read; a report on
included classes only leaves out rows and has the same totals. -/
theorem scan_leaves_nothing {m : Type → Type} [Monad m] [LawfulMonad m]
    (read : String → m (Option Bytes)) (policy : Policy) (capacity duration : Nat) (root : String)
    (includedOnly : Bool) :
    let agent := Agent.ofPolicy policy capacity
    (∀ sources, scanAll read agent sources =
      scanContents agent <$> sources.mapM fun source =>
        Content.ofSource source <$> read source.path) ∧
    ∀ contents,
      let scanned := scanContents agent contents
      let report :=
        Report.ofScan root contents.length duration includedOnly scanned.1 scanned.2
      let counts := report.cache.counts
      let totals := report.totals
      report.cache.loaderCount = 0 ∧ report.cache.size = 0 ∧ counts.refreshes = 0 ∧
        counts.hits + counts.misses + counts.uncached = totals.classes ∧
        totals.included + totals.excluded + totals.noMatch = totals.classes ∧
        totals.failed ≤ totals.noMatch ∧ totals = Totals.ofRows scanned.2 ∧
        scanned.2.map ClassRow.place = contents.flatMap Content.places ∧
        report.rows =
          if includedOnly then scanned.2.filter fun row => row.decision = .included
          else scanned.2 := by
  refine ⟨scanAll_eq read _, fun contents => ?_⟩
  intro scanned report counts totals
  have htells := tells_scanContents (.ofPolicy policy capacity) contents
  obtain ⟨hready, htallied⟩ := ready_scanContents (Agent.ready_ofPolicy policy capacity)
    (Agent.tallied_ofPolicy policy capacity) contents
  have htables : report.cache.tables = [] := hready.sweep
  have hcounts : counts = scanned.1.cache.counts :=
    (Cache.cleared_sweep scanned.1.cache scanned.1.loaders).counts
  have hrefreshes : counts.refreshes = 0 := hcounts ▸ htallied.refreshes_eq
  have hlookups : counts.lookups = totals.classes := by
    rw [hcounts, htallied.lookups_eq, htells.length_eq, Nat.zero_add]
    rfl
  refine ⟨?_, ?_, hrefreshes, ?_, Totals.balance scanned.2,
    Totals.failed_le fun row => decision_of_tells htells, rfl, map_place_of_tells htells, rfl⟩
  · rw [Cache.loaderCount, htables, List.length_nil]
  · rw [Cache.size, htables]
    rfl
  · rw [CacheCounts.lookups, hrefreshes, Nat.add_zero] at hlookups
    exact hlookups

theorem scan_leaves_nothing_twice :
    let again : ArchivedClass := ⟨"A.class", "A", none, []⟩
    let released : ArchivedClass := ⟨"META-INF/versions/9/A.class", "A", some 9, []⟩
    let scanned := scanContents (.ofPolicy .idle 16)
      [.archive "a.jar" [again, again, released], .unreadable, .classFile "B.class" []]
    let report := Report.ofScan "." 3 0 true scanned.1 scanned.2
    scanned.1.cache.loaderCount = 2 ∧ report.cache.loaderCount = 0 ∧ report.cache.counts.hits = 1 ∧
      report.cache.counts.misses = 2 ∧ report.cache.counts.uncached = 1 ∧
      report.totals.noMatch = 4 := by
  intro again released scanned report
  obtain ⟨-, hreport⟩ := scan_leaves_nothing (m := Id) (fun _ => none) .idle 16 0 "." true
  obtain ⟨hloaders, -⟩ :=
    hreport [.archive "a.jar" [again, again, released], .unreadable, .classFile "B.class" []]
  refine ⟨?_, hloaders, ?_⟩
  · decide +kernel
  · decide +kernel

end Scan

end ClassSieve
