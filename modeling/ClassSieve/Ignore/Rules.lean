import ClassSieve.Ignore.Glob
import ClassSieve.Text.Cut
import ClassSieve.Text.Utf8

/-!
# Ignore rules

An ignore file lists globs for the paths below its directory, one a line. A line behind `!` keeps
what an earlier one ignores, so the last rule that matches decides. A glob without a slash matches
at any depth, and one that ends in a slash matches directories only. Lines that start with `#` and
lines that write no glob are skipped. Of several ignore files the one nearest to a path that has a
matching rule decides.
-/
namespace ClassSieve.Ignore
open Text

structure Rule where
  glob : Glob
  keeps : Bool
  directoriesOnly : Bool

namespace Rule

/-- A line without the blanks at its end, unless the last of them is a blank behind a
backslash. -/
def trimLine (line : List Char) : List Char :=
  if ['\\', ' '].isSuffixOf line then line else dropTrailing isBlank line

def cutDirectoryMark (cs : List Char) : Bool × List Char :=
  if cs.getLast? = some '/' then
    let body := cs.dropLast
    (true, if body.getLast? = some '\\' then body.dropLast else body)
  else (false, cs)

def place (anchored : Bool) (cs : List Char) : List Char :=
  let anywhere := ['*', '*', '/']
  let placed :=
    if anchored || cs.contains '/' || anywhere.isPrefixOf cs || cs = ['*', '*'] then cs
    else anywhere ++ cs
  if ['/', '*', '*'].isSuffixOf placed then placed ++ ['/', '*'] else placed

def ofGlob? (keeps anchored : Bool) (cs : List Char) : Option Rule := do
  let (directoriesOnly, cs) := cutDirectoryMark cs
  return { glob := ← Glob.parse? (place anchored cs), keeps, directoriesOnly }

def ofAnchor? (keeps : Bool) : List Char → Option Rule
  | '/' :: cs => ofGlob? keeps true cs
  | cs => ofGlob? keeps false cs

def ofLine? (line : List Char) : Option Rule :=
  if line.head? = some '#' then none
  else
    match trimLine line with
    | [] => none
    | '\\' :: '!' :: cs => ofGlob? false false ('!' :: cs)
    | '\\' :: '#' :: cs => ofGlob? false false ('#' :: cs)
    | '!' :: cs => ofAnchor? true cs
    | cs => ofAnchor? false cs

def isMatch (rule : Rule) (path : String) (isDirectory : Bool) : Bool :=
  (!rule.directoriesOnly || isDirectory) && rule.glob.isMatch path

end Rule

def withoutReturn (line : List UInt8) : List UInt8 :=
  if line.getLast? = some 0x0D then line.dropLast else line

/-- The lines of a file up to the first that is no text. -/
def textLines : List (List UInt8) → List (List Char)
  | [] => []
  | line :: rest =>
    match Utf8.decode? (withoutReturn line) with
    | some text => text.toList :: textLines rest
    | none => []

def byteOrderMark : Char := '\uFEFF'

def rulesOf (content : List UInt8) : List Rule :=
  let lines := textLines (content.splitOn 0x0A)
  let unmarked := match lines with
    | [] => []
    | first :: rest => first.dropWhile (· = byteOrderMark) :: rest
  unmarked.filterMap Rule.ofLine?

structure Scope where
  rules : List Rule
  names : List String

namespace Scope

def enter (name : String) (scope : Scope) : Scope :=
  { scope with names := scope.names ++ [name] }

def keeps? (isDirectory : Bool) (scope : Scope) : Option Bool :=
  let path := String.intercalate "/" scope.names
  (scope.rules.reverse.find? fun rule => rule.isMatch path isDirectory).map Rule.keeps

end Scope

def isIgnored (scopes : List Scope) (isDirectory : Bool) : Bool :=
  scopes.findSome? (Scope.keeps? isDirectory) = some false

end ClassSieve.Ignore
