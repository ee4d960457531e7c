import ClassSieve.Scan.Report
import Mathlib.Data.List.Forall2

/-!
# Scanning what was read

A scan reads each source when its turn comes. What it makes of the sources depends on nothing but
what was read of them: the classes of an archive, the bytes of a loose file, or nothing. There is a
row for every class, in the order in which the classes were read, and the totals count each once.
-/
namespace ClassSieve.Scan
open ClassFile Archive

inductive Content where
  | archive (source : String) (classes : List ArchivedClass)
  | classFile (source : String) (bytes : Bytes)
  | unreadable

namespace Content

def ofSource (source : Source) : Option Bytes → Content
  | none => unreadable
  | some bytes =>
    match source.kind with
    | .classFile => classFile source.path bytes
    | .archive =>
      match readClasses bytes.toArray with
      | .ok classes => archive source.path classes
      | .error _ => unreadable

def scan (agent : Agent) : Content → Agent × List ClassRow
  | archive source classes => scanArchive agent source classes
  | classFile source bytes => scanClassFile agent source bytes
  | unreadable => (agent, [])

theorem scan_ofSource_some (agent : Agent) (source : Source) (bytes : Bytes) :
    (ofSource source (some bytes)).scan agent = scanSource agent source bytes := by
  rw [ofSource, scanSource]
  cases source.kind with
  | classFile => rfl
  | archive => cases readClasses bytes.toArray <;> rfl

end Content

def scanContents (agent : Agent) : List Content → Agent × List ClassRow
  | [] => (agent, [])
  | content :: rest =>
    let (agent, rows) := content.scan agent
    let (agent, others) := scanContents agent rest
    (agent, rows ++ others)

/-- Sources may as well be read before the scan. -/
theorem scanAll_eq {m : Type → Type} [Monad m] [LawfulMonad m] (read : String → m (Option Bytes))
    (agent : Agent) (sources : List Source) :
    scanAll read agent sources =
      scanContents agent <$> sources.mapM fun source =>
        Content.ofSource source <$> read source.path := by
  induction sources generalizing agent with
  | nil => simp [scanAll, scanContents]
  | cons source rest ih =>
    rw [scanAll, List.mapM_cons]
    simp only [ih, map_eq_pure_bind, bind_assoc, pure_bind]
    congr 1
    funext found
    cases found with
    | none => rfl
    | some bytes =>
      simp only [scanContents, Content.scan_ofSource_some]

/-! ## Rows in order -/

def ClassRow.place (row : ClassRow) : String × String × Option Nat × String :=
  (row.source, row.entry, row.release, row.contentHash)

def Content.places : Content → List (String × String × Option Nat × String)
  | archive source classes => classes.map fun archived =>
      (source, archived.entry, archived.release, Digest.Sha256.digest archived.bytes)
  | classFile source bytes => [(source, source, none, Digest.Sha256.digest bytes)]
  | unreadable => []

/-- A row about a class that stands there; one that could not be read was not decided about. -/
structure ClassRow.Tells (place : String × String × Option Nat × String) (row : ClassRow) :
    Prop where
  place_eq : row.place = place
  decision_of_fault : row.fault.isSome → row.decision = .noMatch

theorem ClassRow.decision_ofEntry (source : String) (archived : Option ArchivedClass)
    (bytes : Bytes) (entry : Entry) (h : (ofEntry source archived bytes entry).fault.isSome) :
    (ofEntry source archived bytes entry).decision = .noMatch := by
  obtain ⟨outcome, generation⟩ := entry
  cases outcome with
  | resolved info decision => cases h
  | failed fault => rfl

theorem ArchiveRun.tells_loadAll (run : ArchiveRun) (source : String)
    (classes : List ArchivedClass) :
    List.Forall₂ ClassRow.Tells (Content.archive source classes).places
      (run.loadAll source classes).2 := by
  induction classes generalizing run with
  | nil => exact .nil
  | cons archived rest ih =>
    exact .cons ⟨rfl, ClassRow.decision_ofEntry _ _ _ _⟩ (ih _)

theorem Content.tells_scan (agent : Agent) (content : Content) :
    List.Forall₂ ClassRow.Tells content.places (content.scan agent).2 := by
  cases content with
  | archive source classes => exact (ArchiveRun.start agent).tells_loadAll source classes
  | classFile source bytes => exact .cons ⟨rfl, ClassRow.decision_ofEntry _ _ _ _⟩ .nil
  | unreadable => exact .nil

theorem tells_scanContents (agent : Agent) (contents : List Content) :
    List.Forall₂ ClassRow.Tells (contents.flatMap Content.places)
      (scanContents agent contents).2 := by
  induction contents generalizing agent with
  | nil => exact .nil
  | cons content rest ih =>
    rw [List.flatMap_cons]
    exact List.rel_append (content.tells_scan agent) (ih _)

theorem map_place_of_tells {places : List (String × String × Option Nat × String)}
    {rows : List ClassRow} (h : List.Forall₂ ClassRow.Tells places rows) :
    rows.map ClassRow.place = places := by
  induction h with
  | nil => rfl
  | cons hrow _ ih => rw [List.map_cons, hrow.place_eq, ih]

theorem decision_of_tells {places : List (String × String × Option Nat × String)}
    {rows : List ClassRow} (h : List.Forall₂ ClassRow.Tells places rows) {row : ClassRow}
    (hrow : row ∈ rows) (hfault : row.fault.isSome) : row.decision = .noMatch := by
  induction h with
  | nil => cases hrow
  | cons hfirst _ ih =>
    rcases List.mem_cons.1 hrow with rfl | hrest
    · exact hfirst.decision_of_fault hfault
    · exact ih hrest

/-! ## Totals -/

theorem Totals.balance (rows : List ClassRow) :
    (ofRows rows).included + (ofRows rows).excluded + (ofRows rows).noMatch =
      (ofRows rows).classes := by
  induction rows with
  | nil => rfl
  | cons row rest ih =>
    simp only [ofRows, List.countP_cons, List.length_cons] at ih ⊢
    cases row.decision with
    | included => simp; omega
    | excluded => simp; omega
    | noMatch => simp; omega

theorem Totals.failed_le {rows : List ClassRow}
    (h : ∀ row ∈ rows, row.fault.isSome → row.decision = .noMatch) :
    (ofRows rows).failed ≤ (ofRows rows).noMatch := by
  apply List.countP_mono_left
  intro row hrow hfault
  exact decide_eq_true (h row hrow hfault)

end ClassSieve.Scan
