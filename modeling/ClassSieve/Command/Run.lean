import ClassSieve.ClassFile.Json
import ClassSieve.Command.Help
import ClassSieve.Rules.Json
import ClassSieve.Scan.Render
import ClassSieve.Text.Utf8

/-!
# Running commands

A run reads its arguments, performs the command, and ends with an exit code, the text that it
prints and what it has to say about a failure. The rules come from the file that the arguments
name, else from the one that the environment names, else from the file of the user if there is one.
-/
namespace ClassSieve
open ClassFile

structure Environment where
  rules : Option String
  dataDirectory : Option String

inductive Failure where
  | unreadableClass (path : String)
  | invalidClass (path : String) (fault : Fault)
  | noDataDirectory
  | unreadableRules (path : String)
  | invalidRules (path : String)
  | pattern (error : PatternError)
  | source (path : String) (fault : Scan.SourceFault)
  | directoryNotMade (path : String)
  | notWritten (path : String)
  deriving DecidableEq, Repr

def Failure.message : Failure → String
  | unreadableClass path => "Failed to read class file: " ++ path
  | invalidClass path _ => "Failed to parse class file: " ++ path
  | noDataDirectory => "Failed to resolve data directory"
  | unreadableRules path => "Failed to read rules file: " ++ path
  | invalidRules path => "Failed to load rules file: " ++ path
  | pattern error => error.message
  | source path fault => fault.message path
  | directoryNotMade path => "Failed to create directory: " ++ path
  | notWritten path => "Failed to write output: " ++ path

structure Exit where
  code : Nat
  output : String
  complaint : String
  deriving DecidableEq, Repr

def Json.toLines (value : Json) : String := value.render ++ "\n"

namespace Command
variable {m : Type → Type} [Monad m]

abbrev Action (m : Type → Type) := ExceptT Failure m

def orFail {α : Type} (failure : Failure) : Option α → Action m α
  | some value => return value
  | none => throw failure

/-! ## Rules -/

def userRules (dataDirectory : String) : String :=
  Path.join (Path.join dataDirectory programName) "rules.json"

def rulesPath (files : Files m) (environment : Environment) (named : Option String) :
    Action m (Option String) := do
  match named.or environment.rules with
  | some path => return some path
  | none =>
    let path := userRules (← orFail .noDataDirectory environment.dataDirectory)
    return if (← files.place path).isSome then some path else none

def loadRules (files : Files m) (environment : Environment) (named : Option String) :
    Action m Policy := do
  let sheet ← match ← rulesPath files environment named with
    | none => pure RuleSheet.empty
    | some path => do
      let text ← orFail (.unreadableRules path) ((← files.read path).bind Text.Utf8.decode?)
      orFail (.invalidRules path) (RuleSheet.ofFile? path text)
  match sheet.compile with
  | .ok policy => return policy
  | .error error => throw (.pattern error)

/-! ## Commands -/

def readClass {α : Type} (files : Files m) (path : String) (parse : Bytes → Except Fault α) :
    Action m α := do
  let bytes ← orFail (.unreadableClass path) (← files.read path)
  match parse bytes with
  | .ok value => return value
  | .error fault => throw (.invalidClass path fault)

def printHeader (files : Files m) (path : String) : Action m String := do
  return (← readClass files path parseHeader).toJson.toLines

def printOutline (files : Files m) (path : String) (annotations : List String) :
    Action m String := do
  let interest := Interest.ofNames annotations
  return (← readClass files path fun bytes => parseOutline bytes interest).toJson.toLines

def decisionsJson (policy : Policy) (names : List String) : Json :=
  .array (names.map fun name =>
    .object [("name", .string name), ("decision", .string (policy.names.decide name).name)])

def renderReport (format : ReportFormat) (report : Scan.Report) : String :=
  match format with
  | .json => report.toJson.render
  | .text => report.toText

def scanReport (files : Files m) (policy : Policy) (request : ScanRequest) :
    Action m Scan.Report := do
  let begun ← files.clock
  match Scan.Source.discover request.path (← files.place request.path) with
  | .error fault => throw (.source request.path fault)
  | .ok sources =>
    let agent := Agent.ofPolicy policy request.capacity
    let (agent, rows) ← (Scan.scanAll files.read agent sources : m _)
    let ended ← files.clock
    return Scan.Report.ofScan request.path sources.length (ended - begun) request.includedOnly
      agent rows

def save (files : Files m) (path text : String) : Action m Unit := do
  match Path.parent? path with
  | none | some "" => pure ()
  | some directory =>
    if !(← files.createDirectory directory) then throw (.directoryNotMade directory)
  if !(← files.write path text) then throw (.notWritten path)

def endLine (text : String) : String :=
  if text.toList.getLast? = some '\n' then text else text ++ "\n"

def perform (files : Files m) (environment : Environment) (invocation : Invocation) :
    Action m String := do
  match invocation.command with
  | .header path => printHeader files path
  | .outline path annotations => printOutline files path annotations
  | .decide names =>
    let policy ← loadRules files environment invocation.rules
    return (decisionsJson policy names).toLines
  | .scan request =>
    let policy ← loadRules files environment invocation.rules
    let text := renderReport request.format (← scanReport files policy request)
    match request.output with
    | none => return endLine text
    | some path =>
      save files path text
      return ""

/-- Runs the program: the exit code is 1 when the command fails and 2 when the arguments make no
sense. -/
def run (files : Files m) (environment : Environment) (arguments : List String) : m Exit := do
  match Invocation.ofArguments arguments with
  | .error (.help command) => return ⟨0, helpText command, ""⟩
  | .error (.misuse cause) => return ⟨2, "", cause.message ++ "\n"⟩
  | .ok invocation =>
    match ← (perform files environment invocation).run with
    | .ok text => return ⟨0, text, ""⟩
    | .error failure => return ⟨1, "", "Error: " ++ failure.message ++ "\n"⟩

end Command

end ClassSieve
