import ClassSieve.Proofs.Archive.EntryNames
import ClassSieve.Proofs.Cache.Registration
import ClassSieve.Proofs.Cache.Transparency
import ClassSieve.Scan.Report
import Mathlib.Data.List.Forall2

/-!
# The rows of an archive

A class of an archive is answered from what the scan has stored for its release and name. So a row
tells of the bytes of an entry with this release and this name, and of those of its own entry when
the entries are spelled plainly, for then no two of them have release and name in common.
-/
namespace ClassSieve
open ClassFile

namespace Archive

theorem mem_of_mapM {α β ε : Type} {f : α → Except ε β} {items : List α} {results : List β}
    (h : items.mapM f = .ok results) {b : β} (hb : b ∈ results) : ∃ a ∈ items, f a = .ok b := by
  induction items generalizing results with
  | nil =>
    cases h
    cases hb
  | cons a items ih =>
    rw [List.mapM_cons] at h
    cases hfirst : f a with
    | error fault =>
      rw [hfirst] at h
      cases h
    | ok first =>
      cases hrest : items.mapM f with
      | error fault =>
        rw [hfirst, hrest] at h
        cases h
      | ok rest =>
        rw [hfirst, hrest] at h
        cases h
        rcases List.mem_cons.1 hb with rfl | hmem
        · exact ⟨a, List.mem_cons_self, hfirst⟩
        · obtain ⟨item, hitem, hf⟩ := ih hrest hmem
          exact ⟨item, List.mem_cons_of_mem _ hitem, hf⟩

variable {data : Data} {classes : List ArchivedClass} {archived : ArchivedClass}

theorem named_of_readEntry {entry : EntryRecord} (h : readEntry data entry = .ok (some archived)) :
    ClassName.ofEntry? archived.entry = some archived.className ∧
      archived.release = ClassName.releaseOfEntry? archived.entry := by
  rw [readEntry] at h
  cases hopen : openEntry data entry with
  | error fault =>
    rw [hopen] at h
    cases h
  | ok start =>
    rw [hopen] at h
    change (if entry.isDirectory then _ else _) = _ at h
    split at h
    · cases h
    · split at h
      · cases h
      · next className hname =>
        split at h
        · cases h
        · cases h
          exact ⟨hname, rfl⟩

theorem named_of_readClasses (h : readClasses data = .ok classes) (hmem : archived ∈ classes) :
    ClassName.ofEntry? archived.entry = some archived.className ∧
      archived.release = ClassName.releaseOfEntry? archived.entry := by
  rw [readClasses] at h
  split at h
  · cases h
  · next entries hentries =>
    cases hread : entries.mapM (readEntry data) with
    | error fault =>
      rw [hread] at h
      cases h
    | ok results =>
      rw [hread] at h
      cases h
      obtain ⟨result, hresult, heq⟩ := List.mem_filterMap.1 hmem
      obtain ⟨entry, -, hentry⟩ := mem_of_mapM hread hresult
      rw [show result = some archived from heq] at hentry
      exact named_of_readEntry hentry

def ArchivedClass.key (archived : ArchivedClass) : Option Nat × String :=
  (archived.release, archived.className)

theorem entry_eq_of_key (h : readClasses data = .ok classes) {given : ArchivedClass}
    (hgiven : given ∈ classes) (harchived : archived ∈ classes) (hkey : given.key = archived.key)
    (hplain : ClassName.IsPlain given.entry) (hother : ClassName.IsPlain archived.entry) :
    given.entry = archived.entry := by
  obtain ⟨hname, hrelease⟩ := named_of_readClasses h hgiven
  obtain ⟨hotherName, hotherRelease⟩ := named_of_readClasses h harchived
  obtain ⟨hreleases, hnames⟩ := Prod.mk.inj hkey
  rw [← hnames] at hotherName
  rw [hrelease, hotherRelease] at hreleases
  exact ClassName.eq_of_isPlain hplain hother hname hotherName hreleases

end Archive

namespace Scan
open Archive

namespace ClassRow

def outcome (row : ClassRow) : Decision × Option String × Nat × Option Fault :=
  (row.decision, row.superName, row.interfaces, row.fault)

def outcomeOf :
    Except Fault (ClassInfo × Decision) → Decision × Option String × Nat × Option Fault
  | .ok (info, decision) =>
    (decision, info.getHeader.superName, info.getHeader.interfaces.length, none)
  | .error fault => (.noMatch, none, 0, some fault)

structure Describes (row : ClassRow) (policy : Policy) (archived : ArchivedClass)
    (bytes : Bytes) : Prop where
  entry_eq : row.entry = archived.entry
  release_eq : row.release = archived.release
  className_eq : row.className = some archived.className
  outcome_eq : row.outcome = outcomeOf (policy.evaluate (some archived.className) bytes)

theorem describes_ofEntry (source : String) (archived : ArchivedClass) (edition : Edition)
    (bytes : Bytes) :
    (ofEntry source (some archived) archived.bytes
      (Entry.compute edition (some archived.className) bytes)).Describes edition.policy archived
        bytes := by
  refine ⟨rfl, rfl, rfl, ?_⟩
  cases heval : edition.policy.evaluate (some archived.className) bytes with
  | ok result => simp only [outcome, ofEntry, Entry.compute, heval]; rfl
  | error fault => simp only [outcome, ofEntry, Entry.compute, heval]; rfl

end ClassRow

namespace ArchiveRun

/-- What holds while an archive is loaded, when these of its classes are loaded already. -/
structure Loading (edition : Edition) (done : List ArchivedClass) (run : ArchiveRun) : Prop where
  edition_eq : run.agent.edition = edition
  registered : ∃ count, run.agent.Registered count
  held_live : ∀ {release held}, run.loaders.get? release = some held →
    run.agent.loaders.isLive held.key = true
  held_once : ∀ {release other held otherHeld}, run.loaders.get? release = some held →
    run.loaders.get? other = some otherHeld → held.key = otherHeld.key → release = other
  stored : ∀ {release held name entry}, run.loaders.get? release = some held →
    run.agent.cache.stored? held.key name = some entry →
      ∃ given ∈ done, given.key = (release, name) ∧
        entry = Entry.compute edition (some name) given.bytes

theorem loading_start {agent : Agent} {count : Nat} (h : agent.Registered count) :
    (start agent).Loading agent.edition [] where
  edition_eq := rfl
  registered := ⟨count, h⟩
  held_live hheld := nomatch hheld
  held_once hheld := nomatch hheld
  stored hheld := nomatch hheld

variable {edition : Edition} {done : List ArchivedClass} {run : ArchiveRun}

theorem Loading.loader (h : run.Loading edition done) (release : Option Nat) :
    ∃ ready held, run.loader release = (ready, HeldLoader.key held) ∧
      ready.Loading edition done ∧ ready.loaders.get? release = some held := by
  rw [ArchiveRun.loader]
  cases hget : run.loaders.get? release with
  | some held => exact ⟨run, held, rfl, h, hget⟩
  | none =>
    obtain ⟨count, hregistered⟩ := h.registered
    have hfresh : run.agent.loaders.Fresh run.agent.register.2 run.agent.register.1.loaders :=
      hregistered.loaders.fresh_register
    -- the loaders held before are live, and the new one is not yet
    have hne : ∀ {other held}, run.loaders.get? other = some held →
        held.key ≠ run.agent.register.2 := by
      intro other held hheld heq
      have hlive := h.held_live hheld
      rw [heq, hfresh.not_isLive] at hlive
      cases hlive
    have hcases : ∀ {other held},
        (run.loaders.set release ⟨run.agent.handles.length, run.agent.register.2⟩).get? other =
          some held →
        (other = release ∧ held.key = run.agent.register.2) ∨
          run.loaders.get? other = some held := by
      intro other held hheld
      rw [Table.get?_set] at hheld
      split at hheld
      · next heq =>
        cases hheld
        exact Or.inl ⟨heq.symm, rfl⟩
      · exact Or.inr hheld
    refine ⟨_, ⟨run.agent.handles.length, run.agent.register.2⟩, rfl,
      ⟨h.edition_eq, ⟨_, hregistered.register⟩, ?_, ?_, ?_⟩, ?_⟩
    · intro other held hheld
      rcases hcases hheld with ⟨-, hkey⟩ | hbefore
      · rw [hkey]
        exact hfresh.isLive
      · exact hfresh.keeps_live (h.held_live hbefore)
    · intro other second held secondHeld hheld hsecond hsame
      rcases hcases hheld with ⟨rfl, hkey⟩ | hbefore
      · rcases hcases hsecond with ⟨rfl, -⟩ | hold
        · rfl
        · exact absurd (hsame.symm.trans hkey) (hne hold)
      · rcases hcases hsecond with ⟨rfl, hkey⟩ | hold
        · exact absurd (hsame.trans hkey) (hne hbefore)
        · exact h.held_once hbefore hold hsame
    · intro other held name entry hheld hstored
      rcases hcases hheld with ⟨-, hkey⟩ | hbefore
      · rw [hkey] at hstored
        cases (hregistered.not_stored name).symm.trans hstored
      · exact h.stored hbefore hstored
    · rw [Table.get?_set, if_pos rfl]
      rfl

theorem Loading.answer (h : run.Loading edition done) {archived : ArchivedClass} {held : HeldLoader}
    (hheld : run.loaders.get? archived.release = some held) :
    ∃ given ∈ archived :: done, given.key = archived.key ∧
      (run.agent.load held.key (some archived.className) archived.bytes).2.entry =
        Entry.compute edition (some archived.className) given.bytes := by
  change ∃ given ∈ archived :: done, given.key = archived.key ∧
    (run.agent.cache.getOrCompute run.agent.loaders run.agent.edition held.key archived.className
      archived.bytes).2.entry = _
  rw [Cache.getOrCompute_entry, h.edition_eq]
  cases hstored : (run.agent.cache.sweepIfDue run.agent.loaders).stored? held.key
      archived.className with
  | none => exact ⟨archived, List.mem_cons_self, rfl, rfl⟩
  | some entry =>
    obtain ⟨given, hmem, hkey, rfl⟩ := h.stored hheld (Cache.stored?_of_sweepIfDue hstored)
    refine ⟨given, List.mem_cons_of_mem _ hmem, hkey, ?_⟩
    rw [Entry.answer, Entry.compute_generation, if_neg (Nat.lt_irrefl _)]

theorem load_eq {source : String} {archived : ArchivedClass} {ready : ArchiveRun} {key : LoaderKey}
    (h : run.loader archived.release = (ready, key)) :
    run.load source archived =
      (⟨(ready.agent.load key (some archived.className) archived.bytes).1, ready.loaders⟩,
        .ofEntry source (some archived) archived.bytes
          (ready.agent.load key (some archived.className) archived.bytes).2.entry) := by
  rw [load, h]

theorem Loading.load (h : run.Loading edition done) (source : String) (archived : ArchivedClass) :
    (run.load source archived).1.Loading edition (archived :: done) ∧
      ∃ given ∈ archived :: done, given.key = archived.key ∧
        (run.load source archived).2.Describes edition.policy archived given.bytes := by
  obtain ⟨ready, held, hready, hloading, hheld⟩ := h.loader archived.release
  obtain ⟨given, hmem, hgiven, hanswer⟩ := hloading.answer hheld
  rw [load_eq hready]
  refine ⟨⟨hloading.edition_eq, ?_, hloading.held_live, hloading.held_once, ?_⟩,
    given, hmem, hgiven, ?_⟩
  · obtain ⟨count, hregistered⟩ := hloading.registered
    exact ⟨count, hregistered.load held.key (some archived.className) archived.bytes⟩
  · intro release other name entry hother hstored
    have hlookup := Cache.stored?_of_getOrCompute hstored
    split at hlookup
    · next hsame =>
      refine ⟨given, hmem, ?_, ?_⟩
      · rw [hgiven, ArchivedClass.key, hloading.held_once hheld hother hsame.1, hsame.2]
      · rw [← hsame.2, hlookup]
        exact hanswer
    · obtain ⟨earlier, hearlier, hfound⟩ := hloading.stored hother hlookup
      exact ⟨earlier, List.mem_cons_of_mem _ hearlier, hfound⟩
  · rw [hanswer]
    exact ClassRow.describes_ofEntry source archived edition given.bytes

theorem Loading.loadAll (h : run.Loading edition done) (source : String)
    (classes : List ArchivedClass) :
    List.Forall₂ (fun archived row => ∃ given ∈ classes ++ done, given.key = archived.key ∧
      ClassRow.Describes row edition.policy archived given.bytes) classes
      (run.loadAll source classes).2 := by
  induction classes generalizing run done with
  | nil => exact .nil
  | cons archived rest ih =>
    obtain ⟨hnext, given, hmem, hgiven⟩ := h.load source archived
    refine .cons ⟨given, ?_, hgiven⟩ ((ih hnext).imp ?_)
    · rw [List.mem_append, List.mem_cons]
      rcases List.mem_cons.1 hmem with rfl | hdone
      · exact Or.inl (Or.inl rfl)
      · exact Or.inr hdone
    · rintro other row ⟨found, hfound, hdescribes⟩
      refine ⟨found, ?_, hdescribes⟩
      simp only [List.mem_append, List.mem_cons] at hfound ⊢
      tauto

end ArchiveRun

theorem scanSource_of_readClasses {agent : Agent} {source : Source} {content : Bytes}
    {classes : List ArchivedClass} (hkind : source.kind = .archive)
    (hread : readClasses content.toArray = .ok classes) :
    scanSource agent source content = scanArchive agent source.path classes := by
  rw [scanSource, hkind, hread]

/-- The rows of an archive tell each of a class of its release and name, and of its own bytes where
this release and name are spelled plainly throughout the archive. -/
theorem archive_rows_describe (policy : Policy) (capacity : Nat) (past : List Operation)
    (source : Source) (content : Bytes) (classes : List ArchivedClass)
    (hcount : Agent.registrations past < 2 ^ 32) (hkind : source.kind = .archive)
    (hread : readClasses content.toArray = .ok classes)
    (hnodup : (classes.map ArchivedClass.entry).Nodup) :
    let agent := ((Agent.ofPolicy policy capacity).run past).1
    List.Forall₂ (fun archived row =>
      (∃ given ∈ classes, given.key = archived.key ∧
        ClassRow.Describes row agent.edition.policy archived given.bytes) ∧
      ((∀ given ∈ classes, given.key = archived.key → ClassName.IsPlain given.entry) →
        ClassRow.Describes row agent.edition.policy archived archived.bytes))
      classes (scanSource agent source content).2 := by
  intro agent
  have hregistered : agent.Registered (0 + Agent.registrations past) :=
    (Agent.registered_ofPolicy policy capacity).run past (by omega)
  have hrows := (ArchiveRun.loading_start hregistered).loadAll source.path classes
  rw [List.append_nil] at hrows
  rw [scanSource_of_readClasses hkind hread, scanArchive]
  have hmembers := (List.forall₂_and_left classes _).2 ⟨fun _ hmem => hmem, hrows⟩
  refine hmembers.imp ?_
  rintro archived row ⟨hmem, given, hgiven, hkey, hdescribes⟩
  refine ⟨⟨given, hgiven, hkey, hdescribes⟩, fun hplain => ?_⟩
  have hsame : given = archived :=
    List.inj_on_of_nodup_map hnodup hgiven hmem
      (entry_eq_of_key hread hgiven hmem hkey (hplain given hgiven hkey) (hplain archived hmem rfl))
  rw [hsame] at hdescribes
  exact hdescribes

def moduleClass : Bytes :=
  [202, 254, 186, 190, 0, 0, 0, 52, 0, 3, 1, 0, 1, 65, 7, 0, 1, 128, 0, 0, 2, 0, 0, 0, 0]

/-- An archive of the entry `A.class`, which is empty, and of `A.class` in the versions directory
that is named by one character. -/
def twoClasses (directory : UInt8) : Bytes :=
  -- the first entry, and the header of the second
  [80, 75, 3, 4, 10, 0, 0, 0, 0, 0, 0, 0, 0, 0, 0, 0, 0, 0, 0, 0, 0, 0, 0, 0, 0, 0, 7, 0, 0, 0,
    65, 46, 99, 108, 97, 115, 115,
    80, 75, 3, 4, 10, 0, 0, 0, 0, 0, 0, 0, 0, 0, 187, 149, 195, 2, 25, 0, 0, 0, 25, 0, 0, 0, 27, 0,
    0, 0, 77, 69, 84, 65, 45, 73, 78, 70, 47, 118, 101, 114, 115, 105, 111, 110, 115, 47, directory,
    47, 65, 46, 99, 108, 97, 115, 115] ++
  moduleClass ++
  -- the directory and the end record
  [80, 75, 1, 2, 10, 0, 10, 0, 0, 0, 0, 0, 0, 0, 0, 0, 0, 0, 0, 0, 0, 0, 0, 0, 0, 0, 0, 0, 7, 0, 0,
    0, 0, 0, 0, 0, 0, 0, 0, 0, 0, 0, 0, 0, 0, 0, 65, 46, 99, 108, 97, 115, 115,
    80, 75, 1, 2, 10, 0, 10, 0, 0, 0, 0, 0, 0, 0, 0, 0, 187, 149, 195, 2, 25, 0, 0, 0, 25, 0, 0, 0,
    27, 0, 0, 0, 0, 0, 0, 0, 0, 0, 0, 0, 0, 0, 37, 0, 0, 0, 77, 69, 84, 65, 45, 73, 78, 70, 47, 118,
    101, 114, 115, 105, 111, 110, 115, 47, directory, 47, 65, 46, 99, 108, 97, 115, 115,
    80, 75, 5, 6, 0, 0, 0, 0, 2, 0, 2, 0, 126, 0, 0, 0, 119, 0, 0, 0, 0, 0]

theorem readClasses_eq_ok {data : Data} {classes : List ArchivedClass}
    (h : (readClasses data).toOption = some classes) : readClasses data = .ok classes := by
  cases hread : readClasses data with
  | error fault =>
    rw [hread] at h
    cases h
  | ok found =>
    rw [hread] at h
    exact congrArg Except.ok (Option.some.inj h)

theorem archive_rows_describe_release :
    List.Forall₂ (fun archived row => ClassRow.Describes row .idle archived archived.bytes)
      [⟨"A.class", "A", none, []⟩, ⟨"META-INF/versions/9/A.class", "A", some 9, moduleClass⟩]
      (scanSource ((Agent.ofPolicy .idle 16).run [.register]).1
        ⟨.archive, "a.jar", ["a.jar"]⟩ (twoClasses 57)).2 := by
  have hrows := archive_rows_describe .idle 16 [.register] ⟨.archive, "a.jar", ["a.jar"]⟩
    (twoClasses 57)
    [⟨"A.class", "A", none, []⟩, ⟨"META-INF/versions/9/A.class", "A", some 9, moduleClass⟩]
    (by decide) rfl (readClasses_eq_ok (by decide +kernel)) (by decide)
  have hplain : ∀ archived ∈ [ArchivedClass.mk "A.class" "A" none [],
      ⟨"META-INF/versions/9/A.class", "A", some 9, moduleClass⟩],
      ClassName.IsPlain archived.entry := by decide
  exact hrows.imp fun archived row hrow => hrow.2 fun given hgiven _ => hplain given hgiven

theorem map_outcome_of_forall₂ {policy : Policy} {classes : List ArchivedClass}
    {rows : List ClassRow}
    (h : List.Forall₂ (fun archived row =>
      ClassRow.Describes row policy archived archived.bytes) classes rows) :
    rows.map ClassRow.outcome = classes.map fun archived =>
      ClassRow.outcomeOf (policy.evaluate (some archived.className) archived.bytes) := by
  induction h with
  | nil => rfl
  | cons hrow _ ih => rw [List.map_cons, List.map_cons, hrow.outcome_eq, ih]

/-- The class under `META-INF/versions/x` is answered from the empty entry in front of it. -/
theorem not_archive_rows_describe :
    ¬ ∀ (policy : Policy) (capacity : Nat) (past : List Operation) (source : Source)
        (content : Bytes) (classes : List ArchivedClass),
      Agent.registrations past < 2 ^ 32 → source.kind = .archive →
      readClasses content.toArray = .ok classes → (classes.map ArchivedClass.entry).Nodup →
      let agent := ((Agent.ofPolicy policy capacity).run past).1
      List.Forall₂ (fun archived row =>
        ClassRow.Describes row agent.edition.policy archived archived.bytes)
        classes (scanSource agent source content).2 := by
  intro h
  have hread : readClasses (twoClasses 120).toArray =
      .ok [⟨"A.class", "A", none, []⟩, ⟨"META-INF/versions/x/A.class", "A", none, moduleClass⟩] :=
    readClasses_eq_ok (by decide +kernel)
  have hrows := h .idle 16 [] ⟨.archive, "a.jar", ["a.jar"]⟩ (twoClasses 120) _ (by decide) rfl
    hread (by decide)
  have houtcomes := map_outcome_of_forall₂ hrows
  rw [scanSource_of_readClasses rfl hread] at houtcomes
  exact absurd houtcomes (by decide +kernel)

end Scan

end ClassSieve
