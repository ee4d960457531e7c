import ClassSieve.ClassName

/-!
# Type descriptors

A descriptor is the text by which a class file names a type: one letter for a primitive, the
class name between `L` and `;`, and one `[` in front for each array dimension. A method's
descriptor holds those of its parameters in parentheses and its return type behind them.
`ofSource` turns a type as written in source code into its descriptor.
-/
namespace ClassSieve.Descriptor
open Text

def primitiveLetters : List Char := ['B', 'C', 'D', 'F', 'I', 'J', 'S', 'Z']

def primitiveNames : List (String × Char) :=
  [("boolean", 'Z'), ("byte", 'B'), ("char", 'C'), ("double", 'D'), ("float", 'F'), ("int", 'I'),
    ("long", 'J'), ("short", 'S'), ("void", 'V')]

/-- The descriptor of a type without array dimensions; what is no primitive is a class. -/
def ofElement (name : String) : List Char :=
  match primitiveNames.lookup name with
  | some letter => [letter]
  | none => 'L' :: (ClassName.toInternal name).toList ++ [';']

def ofReversed : List Char → List Char
  | ']' :: '[' :: component => '[' :: ofReversed component
  | cs => ofElement (String.ofList cs.reverse)

/-- The descriptor of a type as written in source: `int` is `I` and `java.lang.String[]` is
`[Ljava/lang/String;`. -/
def ofSource (type : String) : String := String.ofList (ofReversed type.toList.reverse)

def nextParameter? : List Char → Option (List Char × List Char)
  | [] => none
  | c :: rest =>
    if c = '[' then (nextParameter? rest).map fun parts => (c :: parts.1, parts.2)
    else if c = 'L' then
      (cutFirst (· = ';') rest).map fun parts => (c :: parts.1 ++ [';'], parts.2)
    else if c ∈ primitiveLetters then some ([c], rest)
    else none

theorem nextParameter?_eq_append {cs type rest : List Char}
    (h : nextParameter? cs = some (type, rest)) : cs = type ++ rest ∧ type ≠ [] := by
  induction cs generalizing type with
  | nil => simp [nextParameter?] at h
  | cons c tail ih =>
    simp only [nextParameter?] at h
    split at h
    · obtain ⟨⟨inner, after⟩, hinner, hparts⟩ := Option.map_eq_some_iff.1 h
      simp only [Prod.mk.injEq] at hparts
      obtain ⟨rfl, rfl⟩ := hparts
      simp [(ih hinner).1]
    · split at h
      · obtain ⟨⟨name, after⟩, hcut, hparts⟩ := Option.map_eq_some_iff.1 h
        simp only [Prod.mk.injEq] at hparts
        obtain ⟨rfl, rfl⟩ := hparts
        obtain ⟨d, hd, -, rfl⟩ := cutFirst_eq_some hcut
        simp only [decide_eq_true_eq] at hd
        simp [hd]
      · split at h
        · simp only [Option.some.injEq, Prod.mk.injEq] at h
          obtain ⟨rfl, rfl⟩ := h
          simp
        · simp at h

def parametersFrom (cs : List Char) : List (List Char) :=
  match _h : nextParameter? cs with
  | none => []
  | some (type, rest) => type :: parametersFrom rest
termination_by cs.length
decreasing_by
  obtain ⟨hcs, htype⟩ := nextParameter?_eq_append _h
  have := List.length_pos_iff.2 htype
  simp [hcs]
  omega

/-- The parameter types of a method; a text without `(` in front has none. -/
def parameters (descriptor : String) : List String :=
  match descriptor.toList with
  | '(' :: rest => (parametersFrom rest).map String.ofList
  | _ => []

/-- What stands behind the last `)`, unless that is nothing. -/
def returnType? (descriptor : String) : Option String :=
  match cutLast (· = ')') descriptor.toList with
  | some (_, c :: rest) => some (String.ofList (c :: rest))
  | _ => none

/-- Whether `cs` reads as the descriptors of the types `types`, one after the other, up to a `)`. -/
def takesExactly (types : List String) (cs : List Char) : Bool :=
  match types with
  | [] => cs.head? = some ')'
  | type :: types =>
    match (ofSource type).toList.isPrefixOf? cs with
    | some rest => takesExactly types rest
    | none => false

def parametersAre (types : List String) (descriptor : String) : Bool :=
  match descriptor.toList with
  | '(' :: rest => takesExactly types rest
  | _ => false

end ClassSieve.Descriptor
