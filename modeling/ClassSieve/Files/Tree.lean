import ClassSieve.Files
import ClassSieve.Path
import ClassSieve.Table

/-!
# Trees of files

Files that are held in memory, as a tree of directories. Every piece of a path but the first is
looked up in what the pieces before it lead to, which has to be a directory. `files` answers what
the program asks from such a tree, where the clock stands still.
-/
namespace ClassSieve
open ClassFile

inductive FileTree where
  | file (content : Bytes)
  | directory (entries : List (String × FileTree))

namespace FileTree

def empty : FileTree := directory []

def isDirectory : FileTree → Bool
  | file _ => false
  | directory _ => true

def entries : FileTree → Table String FileTree
  | file _ => []
  | directory entries => entries

def content? : FileTree → Option Bytes
  | file content => some content
  | directory _ => none

def get? (tree : FileTree) : List String → Option FileTree
  | [] => some tree
  | name :: rest => (tree.entries.get? name).bind fun entry => entry.get? rest

def set (tree : FileTree) (value : FileTree) : List String → FileTree
  | [] => value
  | name :: rest =>
    let entry := (tree.entries.get? name).getD empty
    directory (tree.entries.set name (entry.set value rest))

@[simp] theorem get?_set (tree value : FileTree) (names : List String) :
    (tree.set value names).get? names = some value := by
  induction names generalizing tree with
  | nil => rfl
  | cons name rest ih => simp [set, get?, entries, Table.get?_set, ih]

def follow? (tree : FileTree) (names : List String) (piece : String) : Option (List String) := do
  if !(← tree.get? names).isDirectory then none
  if Path.isIdle piece then return names
  else if piece = ".." then
    if names.isEmpty then none else return names.dropLast
  else return names ++ [piece]

def locate? (tree : FileTree) (path : String) : Option (List String) :=
  match Path.pieces path with
  | "" :: _ => none
  | pieces => pieces.foldlM tree.follow? []

def lookup? (tree : FileTree) (path : String) : Option FileTree :=
  (tree.locate? path).bind tree.get?

def read? (tree : FileTree) (path : String) : Option Bytes := (tree.lookup? path).bind content?

mutual

def listing : FileTree → Listing
  | file _ => .file
  | directory entries =>
    let ignore := ((Table.get? entries ignoreFileName).bind content?).getD []
    .directory ignore (listings entries)

def listings : List (String × FileTree) → List (String × Listing)
  | [] => []
  | (name, entry) :: rest => (name, entry.listing) :: listings rest

end

def ignoreContent (tree : FileTree) (names : List String) : Bytes :=
  ((tree.get? (names ++ [ignoreFileName])).bind content?).getD []

def place? (tree : FileTree) (path : String) : Option Place := do
  let names ← tree.locate? path
  let found ← tree.get? names
  let above := (List.range names.length).reverse.map fun n =>
    { ignore := tree.ignoreContent (names.take n), names := names.drop n : Enclosing }
  return { listing := found.listing, above }

def enter? (state : FileTree × List String) (piece : String) : Option (FileTree × List String) := do
  let (tree, names) := state
  let next ← tree.follow? names piece
  match tree.get? next with
  | some (directory _) => return (tree, next)
  | some (file _) => none
  | none => return (tree.set empty next, next)

def createDirectory? (tree : FileTree) (path : String) : Option FileTree :=
  match Path.pieces path with
  | "" :: _ => none
  | pieces => (pieces.foldlM enter? (tree, [])).map Prod.fst

def write? (tree : FileTree) (path : String) (content : Bytes) : Option FileTree := do
  let names ← tree.locate? path
  match tree.get? names with
  | some (directory _) => none
  | _ => return tree.set (file content) names

def change (attempt : FileTree → Option FileTree) : StateM FileTree Bool := do
  match attempt (← get) with
  | some tree =>
    StateT.set tree
    return true
  | none => return false

def files : Files (StateM FileTree) where
  read path := return (← get).read? path
  place path := return (← get).place? path
  createDirectory path := change fun tree => tree.createDirectory? path
  write path text := change fun tree => tree.write? path text.toUTF8.toList
  clock := return 0

end FileTree

end ClassSieve
