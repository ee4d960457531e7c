import ClassSieve.Text.Cut

/-!
# Paths

A path is a text, and its pieces stand between slashes. Empty pieces and pieces `.` lead nowhere;
a `.` counts only as the first piece. The file name of a path is its last piece that counts, unless
that is `.` or `..`.
-/
namespace ClassSieve.Path
open Text

def pieces (path : String) : List String := (path.toList.splitOn '/').map String.ofList

def isIdle (piece : String) : Bool := piece = "" || piece = "."

def components (path : String) : List String :=
  match pieces path with
  | [] => []
  | first :: rest =>
    let others := rest.filter fun piece => !isIdle piece
    if first = "" then others else first :: others

def fileName? (path : String) : Option String :=
  (components path).getLast?.filter fun name => name ≠ "." && name ≠ ".."

/-- What stands behind the last dot of a file name; a dot at its beginning starts no extension. -/
def nameExtension? (name : String) : Option String :=
  match cutLast (· = '.') name.toList with
  | some (_ :: _, last) => some (String.ofList last)
  | _ => none

def extension? (path : String) : Option String := (fileName? path).bind nameExtension?

def join (directory name : String) : String :=
  if directory = "" || directory.toList.getLast? = some '/' then directory ++ name
  else directory ++ "/" ++ name

def trimPieces : List String → List String
  | [] => []
  | first :: rest => first :: dropTrailing isIdle rest

def parent? (path : String) : Option String :=
  match trimPieces (pieces path) with
  | [] | [""] => none
  | counted =>
    match trimPieces counted.dropLast with
    | [""] => some "/"
    | above => some (String.intercalate "/" above)

end ClassSieve.Path
