import ClassSieve.Files
import ClassSieve.Ignore.Rules
import ClassSieve.Path

/-!
# Class sources

Classes come from archives and from loose class files, which are told by the extension of their
path. A scan of a directory visits everything below it that is not ignored, hidden files too, and
also the directory itself; it does not enter what is ignored. Archives are read before class files,
and either kind in the order of the names that lead to it.
-/
namespace ClassSieve.Scan

inductive SourceKind where
  | archive
  | classFile
  deriving DecidableEq, Repr

namespace SourceKind

def rank : SourceKind → Nat
  | archive => 0
  | classFile => 1

def ofPath? (path : String) : Option SourceKind :=
  match Path.extension? path with
  | some "jar" => some archive
  | some "class" => some classFile
  | _ => none

end SourceKind

structure Source where
  kind : SourceKind
  path : String
  names : List String
  deriving DecidableEq, Repr

inductive SourceFault where
  | missing
  | notASource
  deriving DecidableEq, Repr

def SourceFault.message (path : String) : SourceFault → String
  | missing => "Failed to read path: " ++ path
  | notASource => "Not a .jar or .class file: " ++ path

namespace Source

def ofNames? (root : String) (names : List String) : Option Source :=
  let path := names.foldl Path.join root
  (SourceKind.ofPath? path).map fun kind => { kind, path, names }

def precedes (a b : Source) : Bool :=
  if a.kind = b.kind then List.le a.names b.names else a.kind.rank ≤ b.kind.rank

mutual

/-- The names that lead to everything that a walk visits from `names` on. The scopes are those of
the directories around, the nearest first. -/
def visited (scopes : List Ignore.Scope) (names : List String) : Listing → List (List String)
  | .file => [names]
  | .directory ignore entries =>
    names :: visitedEntries (⟨Ignore.rulesOf ignore, []⟩ :: scopes) names entries

def visitedEntries (scopes : List Ignore.Scope) (names : List String) :
    List (String × Listing) → List (List String)
  | [] => []
  | (name, entry) :: rest =>
    let inner := scopes.map (Ignore.Scope.enter name)
    let found :=
      if Ignore.isIgnored inner entry.isDirectory then [] else visited inner (names ++ [name]) entry
    found ++ visitedEntries scopes names rest

end

def scopesAbove (place : Place) : List Ignore.Scope :=
  place.above.map fun enclosing => ⟨Ignore.rulesOf enclosing.ignore, enclosing.names⟩

def discover (root : String) (place : Option Place) : Except SourceFault (List Source) :=
  match place with
  | none => .error .missing
  | some place =>
    let found := (visited (scopesAbove place) [] place.listing).filterMap (ofNames? root)
    if place.listing.isDirectory then .ok (found.mergeSort precedes)
    else if found.isEmpty then .error .notASource
    else .ok found

end Source

end ClassSieve.Scan
