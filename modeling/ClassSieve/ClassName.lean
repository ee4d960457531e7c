import ClassSieve.Text.Cut

/-!
# Class names

A class is written with dots by people and with slashes in a class file; the slashed form is the
internal one. An archive entry such as `com/example/Widget.class` names a class by its path. An
entry under `META-INF/versions/<n>/` names the class of the path behind that directory, for the
release `n`.
-/
namespace ClassSieve.ClassName
open Text

def slashed (c : Char) : Char := if c = '.' then '/' else c
def dotted (c : Char) : Char := if c = '/' then '.' else c

def toInternal (name : String) : String := String.ofList (name.toList.map slashed)
def toExternal (name : String) : String := String.ofList (name.toList.map dotted)

theorem slashed_slashed (c : Char) : slashed (slashed c) = slashed c := by
  by_cases h : c = '.' <;> simp [slashed, h]

theorem toInternal_toInternal (name : String) : toInternal (toInternal name) = toInternal name := by
  simp [toInternal, Function.comp_def, slashed_slashed]

def simple (name : String) : String :=
  match cutLast (fun c => c = '/' || c = '.') name.toList with
  | some (_, last) => String.ofList last
  | none => name

def versionsDirectory : List Char := "META-INF/versions/".toList

def classSuffix : List Char := ".class".toList

def entryPath (entry : String) : List Char :=
  entry.toList.map fun c => if c = '\\' then '/' else c

def cutRelease (path : List Char) : Option (List Char × List Char) :=
  (versionsDirectory.isPrefixOf? path).bind (cutFirst (· = '/'))

def ofEntry? (entry : String) : Option String := do
  let stem ← classSuffix.isSuffixOf? (entryPath entry)
  let stem ←
    if versionsDirectory.isPrefixOf stem then (cutRelease stem).map Prod.snd else some stem
  if stem.isEmpty || stem.getLast? = some '/' then none else some (String.ofList stem)

def releaseOfEntry? (entry : String) : Option Nat :=
  (cutRelease (entryPath entry)).bind fun parts => numeral? 0xFFFFFFFF parts.1

end ClassSieve.ClassName
