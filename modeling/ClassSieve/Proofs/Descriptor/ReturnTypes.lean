import ClassSieve.Condition
import ClassSieve.Proofs.Descriptor.Grammar

/-!
# Return types of methods

Legal method descriptors as trees, and what is taken for the return type of a method that has one.
The parameters are walked and the return type is searched for from the end. So parentheses in the
names of parameter classes do no harm, and of a return type that holds a `)` only the part behind
the last one is found.
-/
namespace ClassSieve.Descriptor
open ClassFile Text

/-- A class name as a class file spells it. Parentheses may occur in it. -/
structure InternalName where
  text : String
  ne_empty : text ≠ ""
  legal : ∀ c ∈ text.toList, c ∉ ['.', ';', '[']

inductive Primitive where
  | byte
  | char
  | double
  | float
  | int
  | long
  | short
  | boolean

def Primitive.letter : Primitive → Char
  | byte => 'B'
  | char => 'C'
  | double => 'D'
  | float => 'F'
  | int => 'I'
  | long => 'J'
  | short => 'S'
  | boolean => 'Z'

inductive FieldType where
  | primitive (primitive : Primitive)
  | object (name : InternalName)
  | array (component : FieldType)

def FieldType.letters : FieldType → List Char
  | primitive p => [p.letter]
  | object name => 'L' :: (name.text.toList ++ [';'])
  | array component => '[' :: component.letters

inductive ReturnType where
  | void
  | value (type : FieldType)

def ReturnType.letters : ReturnType → List Char
  | void => ['V']
  | value type => type.letters

structure MethodType where
  parameters : List FieldType
  result : ReturnType

def MethodType.descriptor (type : MethodType) : String :=
  String.ofList ('(' :: ((type.parameters.map FieldType.letters).flatten ++
    ')' :: type.result.letters))

/-- Whether `text` is taken for the return type of a method, by itself and in conditions. -/
def IsReturned (method : Method) (text : String) : Prop :=
  method.returnType? = some text ∧
    ∀ wanted, { MethodCondition.any with returns := some wanted }.holds method = true ↔
      wanted = text

theorem Primitive.letter_mem (p : Primitive) : p.letter ∈ primitiveLetters := by
  cases p <;> decide

theorem FieldType.spelling (type : FieldType) : Spelling primitiveLetters type.letters := by
  induction type with
  | primitive p => exact .letter p.letter_mem
  | object name => exact .object fun hmem => name.legal _ hmem (by decide)
  | array component ih => exact .array ih

theorem ReturnType.spelling (type : ReturnType) : Spelling typeLetters type.letters := by
  cases type with
  | void => exact .letter (by decide)
  | value type => exact type.spelling.ofPrimitive

theorem Spelling.ne_append_close {cs : List Char} (h : Spelling typeLetters cs)
    (front : List Char) : cs ≠ front ++ [')'] := by
  have hclose : ')' ∉ typeLetters := by decide
  induction h generalizing front with
  | @letter c hc =>
    intro heq
    have hsplit : [] ++ [c] = front ++ [')'] := heq
    obtain ⟨-, hlast⟩ := List.append_inj' hsplit rfl
    exact hclose (List.singleton_inj.1 hlast ▸ hc)
  | @object name _ =>
    intro heq
    have hsplit : ('L' :: name) ++ [';'] = front ++ [')'] := heq
    obtain ⟨-, hlast⟩ := List.append_inj' hsplit rfl
    exact absurd hlast (by decide)
  | array _ ih =>
    intro heq
    cases front with
    | nil => exact absurd (List.cons.inj heq).1 (by decide)
    | cons c front => exact ih front (List.cons.inj heq).2

theorem holds_returns (method : Method) (wanted : String) :
    { MethodCondition.any with returns := some wanted }.holds method = true ↔
      method.returnType? = some wanted := by
  simp [MethodCondition.holds, MethodCondition.any, holdsIfAny]

theorem isReturned_of_returnType? {method : Method} {text : String}
    (h : method.returnType? = some text) : IsReturned method text := by
  refine ⟨h, fun wanted => ?_⟩
  rw [holds_returns, h, Option.some_inj]
  exact eq_comm

theorem returnType?_append {descriptor : String} (front : List Char) {back : List Char}
    (hdescriptor : descriptor.toList = front ++ ')' :: back) (hback : ')' ∉ back)
    (hne : back ≠ []) : returnType? descriptor = some (String.ofList back) := by
  have hcut : cutLast (· = ')') (front ++ ')' :: back) = some (front, back) :=
    cutLast_of_not_mem hback
  rw [returnType?, hdescriptor, hcut]
  cases back with
  | nil => exact absurd rfl hne
  | cons c back => rfl

theorem MethodType.toList_descriptor (type : MethodType) :
    type.descriptor.toList = '(' :: ((type.parameters.map FieldType.letters).flatten ++
      ')' :: type.result.letters) := String.toList_ofList

/-- The parameters of a legal descriptor are read as they stand. What is found for the return type
is the return type where no `)` occurs in it, and else its part behind the last one. -/
theorem isReturned_behind_close (type : MethodType) (method : Method)
    (hdescriptor : method.descriptor = type.descriptor) :
    method.parameters = type.parameters.map (fun parameter => String.ofList parameter.letters) ∧
      (')' ∉ type.result.letters → IsReturned method (String.ofList type.result.letters)) ∧
      (∀ front back, type.result.letters = front ++ ')' :: back → ')' ∉ back →
        IsReturned method (String.ofList back)) := by
  have hletters := type.toList_descriptor
  rw [← hdescriptor] at hletters
  refine ⟨?_, fun hresult => ?_, fun front back hresult hback => ?_⟩
  · rw [Method.parameters, parameters_append _ hletters, List.map_map]
    · rfl
    · intro cs hcs
      obtain ⟨parameter, -, rfl⟩ := List.mem_map.1 hcs
      exact parameter.spelling
  · -- The last `)` is the one behind the parameters.
    apply isReturned_of_returnType?
    apply returnType?_append ('(' :: (type.parameters.map FieldType.letters).flatten)
    · exact hletters
    · exact hresult
    · intro hnil
      have hspelling := type.result.spelling
      rw [hnil] at hspelling
      cases hspelling
  · -- The last `)` stands in the name of the returned class.
    apply isReturned_of_returnType?
    apply returnType?_append
      ('(' :: ((type.parameters.map FieldType.letters).flatten ++ ')' :: front))
    · rw [hletters, hresult, List.cons_append, List.append_assoc, List.cons_append]
    · exact hback
    · rintro rfl
      exact type.result.spelling.ne_append_close front hresult

def parenthesized : FieldType := .object ⟨"a)b", by decide, by simp⟩

theorem isReturned_behind_close_parenthesized :
    ({ access := ⟨1⟩, name := "m", descriptor := "(La)b;[I)V", annotations := [] } :
        Method).parameters = ["La)b;", "[I"] ∧
      IsReturned { access := ⟨1⟩, name := "m", descriptor := "(La)b;[I)V", annotations := [] }
        "V" ∧
      IsReturned { access := ⟨1⟩, name := "m", descriptor := "()La)b;", annotations := [] }
        "b;" := by
  have hgiven := isReturned_behind_close ⟨[parenthesized, .array (.primitive .int)], .void⟩
    { access := ⟨1⟩, name := "m", descriptor := "(La)b;[I)V", annotations := [] } (by decide)
  have hreturned := isReturned_behind_close ⟨[], .value parenthesized⟩
    { access := ⟨1⟩, name := "m", descriptor := "()La)b;", annotations := [] } (by decide)
  exact ⟨hgiven.1, hgiven.2.1 (by decide), hreturned.2.2 ['L', 'a'] ['b', ';'] rfl (by decide)⟩

/-- Of a return type `La)b;` only `b;` is found. -/
theorem not_isReturned_result :
    ¬ ∀ (type : MethodType) (method : Method), method.descriptor = type.descriptor →
      IsReturned method (String.ofList type.result.letters) := by
  intro h
  have hreturned := h ⟨[], .value parenthesized⟩
    { access := ⟨1⟩, name := "m", descriptor := "()La)b;", annotations := [] } (by decide)
  exact absurd hreturned.1 (by decide)

end ClassSieve.Descriptor
