import ClassSieve.Agent
import ClassSieve.Archive
import ClassSieve.Digest.Sha256
import ClassSieve.Scan.Source

/-!
# Scan reports

A scan loads every class of its sources into an agent and reports a row for each. An archive has a
loader of its own for every release that it holds classes for, so the class of a release is kept
apart from the class of the same name for all releases; the loaders are retired once the archive is
done. A loose class file belongs to the boot loader and is known by the name in it. A source that
cannot be read has no rows.
-/
namespace ClassSieve.Scan
open ClassFile Archive

structure ClassRow where
  source : String
  /-- The entry of an archive; a loose class file is its own entry. -/
  entry : String
  release : Option Nat
  className : Option String
  decision : Decision
  superName : Option String
  interfaces : Nat
  contentHash : String
  fault : Option Fault
  deriving DecidableEq, Repr

def ClassRow.ofEntry (source : String) (archived : Option ArchivedClass) (bytes : Bytes)
    (entry : Entry) : ClassRow where
  source
  entry := (archived.map ArchivedClass.entry).getD source
  release := archived.bind ArchivedClass.release
  className := (archived.map ArchivedClass.className).or (entry.header?.map Header.name)
  decision := entry.decision
  superName := entry.header?.bind Header.superName
  interfaces := (entry.header?.map fun header => header.interfaces.length).getD 0
  contentHash := Digest.Sha256.digest bytes
  fault := entry.fault?

/-! ## Sources -/

structure HeldLoader where
  handle : Nat
  key : LoaderKey

structure ArchiveRun where
  agent : Agent
  loaders : Table (Option Nat) HeldLoader

namespace ArchiveRun

def start (agent : Agent) : ArchiveRun := ⟨agent, []⟩

/-- The loader of a release, which is registered when it is first asked for. -/
def loader (run : ArchiveRun) (release : Option Nat) : ArchiveRun × LoaderKey :=
  match run.loaders.get? release with
  | some held => (run, held.key)
  | none =>
    let (agent, key) := run.agent.register
    (⟨agent, run.loaders.set release ⟨run.agent.handles.length, key⟩⟩, key)

def load (run : ArchiveRun) (source : String) (archived : ArchivedClass) : ArchiveRun × ClassRow :=
  let (run, key) := run.loader archived.release
  let (agent, answer) := run.agent.load key (some archived.className) archived.bytes
  ({ run with agent }, ClassRow.ofEntry source (some archived) archived.bytes answer.entry)

def loadAll (run : ArchiveRun) (source : String) : List ArchivedClass → ArchiveRun × List ClassRow
  | [] => (run, [])
  | archived :: rest =>
    let (run, row) := run.load source archived
    let (run, rows) := run.loadAll source rest
    (run, row :: rows)

def finish (run : ArchiveRun) : Agent :=
  run.loaders.foldl (fun agent held => (agent.retire held.2.handle).1) run.agent

end ArchiveRun

def scanArchive (agent : Agent) (source : String) (classes : List ArchivedClass) :
    Agent × List ClassRow :=
  let (run, rows) := (ArchiveRun.start agent).loadAll source classes
  (run.finish, rows)

def scanClassFile (agent : Agent) (source : String) (bytes : Bytes) : Agent × List ClassRow :=
  let (agent, answer) := agent.load .boot none bytes
  (agent, [ClassRow.ofEntry source none bytes answer.entry])

def scanSource (agent : Agent) (source : Source) (content : Bytes) : Agent × List ClassRow :=
  match source.kind with
  | .classFile => scanClassFile agent source.path content
  | .archive =>
    match readClasses content.toArray with
    | .ok classes => scanArchive agent source.path classes
    | .error _ => (agent, [])

def scanAll {m : Type → Type} [Monad m] (read : String → m (Option Bytes)) (agent : Agent) :
    List Source → m (Agent × List ClassRow)
  | [] => return (agent, [])
  | source :: rest => do
    let (agent, rows) := match ← read source.path with
      | some content => scanSource agent source content
      | none => (agent, [])
    let (agent, others) ← scanAll read agent rest
    return (agent, rows ++ others)

/-! ## Reports -/

structure Totals where
  classes : Nat
  included : Nat
  excluded : Nat
  noMatch : Nat
  failed : Nat
  deriving DecidableEq, Repr

def Totals.ofRows (rows : List ClassRow) : Totals :=
  let decided (decision : Decision) := rows.countP fun row => row.decision = decision
  { classes := rows.length
    included := decided .included
    excluded := decided .excluded
    noMatch := decided .noMatch
    failed := rows.countP fun row => row.fault.isSome }

structure Report where
  root : String
  sources : Nat
  generation : Nat
  duration : Nat
  totals : Totals
  cache : Cache
  rows : List ClassRow

/-- The report on a scan that ends with `agent`. The totals count all rows, also those of classes
that are left out of a report on included classes only. -/
def Report.ofScan (root : String) (sources duration : Nat) (includedOnly : Bool) (agent : Agent)
    (rows : List ClassRow) : Report where
  root
  sources
  generation := agent.edition.generation
  duration
  totals := Totals.ofRows rows
  cache := (agent.cache.sweep agent.loaders).1
  rows := if includedOnly then rows.filter fun row => row.decision = .included else rows

end ClassSieve.Scan
