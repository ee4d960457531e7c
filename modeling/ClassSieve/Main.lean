import ClassSieve.Command.Run

/-!
# The program

Runs a command on the files of the system and ends with its exit code. Everything that it decides
is decided by `Command.run`.
-/
namespace ClassSieve
open ClassFile

def attempt {α : Type} (action : IO α) : IO (Option α) :=
  try return some (← action)
  catch _ => return none

def succeeds (action : IO Unit) : IO Bool := return (← attempt action).isSome

def readFile (path : String) : IO (Option Bytes) :=
  attempt (return (← IO.FS.readBinFile path).toList)

def readIgnoreFile (directory : String) : IO Bytes := do
  return (← readFile (Path.join directory ignoreFileName)).getD []

/-- Lists a directory and those below it. Links are not followed. -/
partial def listDirectory (path : String) : IO Listing := do
  let mut entries := []
  for entry in ← (← IO.FS.realPath path).readDir do
    let data ← attempt entry.path.symlinkMetadata
    let kind : Option IO.FS.FileType := data.map fun found => found.type
    let listing ← match kind with
      | some .dir => do
        let below ← attempt (listDirectory (Path.join path entry.fileName))
        pure (below.getD (.directory [] []))
      | _ => pure Listing.file
    entries := (entry.fileName, listing) :: entries
  return .directory (← readIgnoreFile path) entries

def directoriesAbove (names : List String) : IO (List Enclosing) :=
  (List.range names.length).reverse.mapM fun n => do
    let directory := "/" ++ String.intercalate "/" (names.take n)
    return { ignore := ← readIgnoreFile directory, names := names.drop n }

def findPlace (path : String) : IO (Option Place) := attempt do
  let real ← IO.FS.realPath path
  let listing ← if ← real.isDir then listDirectory path else pure Listing.file
  return { listing, above := ← directoriesAbove (Path.components real.toString) }

def systemFiles : Files IO where
  read := readFile
  place := findPlace
  createDirectory path := succeeds (IO.FS.createDirAll path)
  write path text := succeeds (IO.FS.writeFile path text)
  clock := IO.monoMsNow

def dataDirectory? (named home : Option String) : Option String :=
  match named.filter fun path => path.startsWith "/" with
  | some path => some path
  | none => (home.filter fun path => path ≠ "").map fun path => Path.join path ".local/share"

def systemEnvironment : IO Environment := do
  return {
    rules := ← IO.getEnv "CLASS_MATCH_RULES"
    dataDirectory := dataDirectory? (← IO.getEnv "XDG_DATA_HOME") (← IO.getEnv "HOME") }

end ClassSieve

def main (arguments : List String) : IO UInt32 := do
  let environment ← ClassSieve.systemEnvironment
  let ended ← ClassSieve.Command.run ClassSieve.systemFiles environment arguments
  IO.print ended.output
  IO.eprint ended.complaint
  return UInt32.ofNat ended.code
