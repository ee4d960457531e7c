import ClassSieve.ClassFile.Outline

/-!
# Structural conditions

What a rule can ask of a class beyond its name: its super class, its interfaces, its flags, its
members, its annotations, and combinations of these. Members and annotations are known only from an
outline; asked of a header alone they are never there. `needsOutline` and `annotationNames` say
what must be read before a condition can be judged.
-/
namespace ClassSieve
open ClassFile

inductive NameCondition where
  | exactly (name : String)
  | oneOf (names : List String)
  | startsWith (front : String)
  | endsWith (back : String)
  deriving DecidableEq, Repr

namespace NameCondition

def holds : NameCondition → String → Bool
  | exactly expected, name => expected = name
  | oneOf names, name => names.contains name
  | startsWith front, name => front.toList.isPrefixOf name.toList
  | endsWith back, name => back.toList.isSuffixOf name.toList

def toInternal : NameCondition → NameCondition
  | exactly name => exactly (ClassName.toInternal name)
  | oneOf names => oneOf (names.map ClassName.toInternal)
  | startsWith front => startsWith (ClassName.toInternal front)
  | endsWith back => endsWith (ClassName.toInternal back)

end NameCondition

def holdsIfAny {α : Type} (condition : Option α) (test : α → Bool) : Bool :=
  match condition with
  | none => true
  | some wanted => test wanted

structure FieldCondition where
  name : Option NameCondition
  descriptor : Option String
  type : Option String
  access : Option AccessCondition
  deriving DecidableEq, Repr

def FieldCondition.holds (condition : FieldCondition) (field : Field) : Bool :=
  holdsIfAny condition.name (·.holds field.name)
    && holdsIfAny condition.descriptor (· = field.descriptor)
    && holdsIfAny condition.type (fun type => Descriptor.ofSource type = field.descriptor)
    && holdsIfAny condition.access (·.holds field.access)

inductive MethodForm where
  | constructor
  | staticInitializer
  | method
  deriving DecidableEq, Repr

def MethodForm.ofName (name : String) : MethodForm :=
  if name = "<init>" then constructor
  else if name = "<clinit>" then staticInitializer
  else method

structure ParameterCondition where
  index : Nat
  type : String
  deriving DecidableEq, Repr

structure MethodCondition where
  name : Option NameCondition
  form : Option MethodForm
  descriptor : Option String
  parameterCount : Option Nat
  parameters : Option (List String)
  parameter : Option ParameterCondition
  returns : Option String
  access : Option AccessCondition
  /-- Annotations of which the method has at least one; an empty list asks for none. -/
  annotatedWith : List String
  deriving DecidableEq, Repr

def MethodCondition.holds (condition : MethodCondition) (method : Method) : Bool :=
  holdsIfAny condition.name (·.holds method.name)
    && holdsIfAny condition.form (· = MethodForm.ofName method.name)
    && holdsIfAny condition.descriptor (· = method.descriptor)
    && holdsIfAny condition.parameterCount (· = method.parameters.length)
    && holdsIfAny condition.parameters (Descriptor.parametersAre · method.descriptor)
    && holdsIfAny condition.parameter (fun parameter =>
      method.parameters[parameter.index]? = some (Descriptor.ofSource parameter.type))
    && holdsIfAny condition.returns (fun returns => method.returnType? = some returns)
    && holdsIfAny condition.access (·.holds method.access)
    && (condition.annotatedWith.isEmpty
      || method.annotations.any condition.annotatedWith.contains)

def MethodCondition.any : MethodCondition where
  name := none
  form := none
  descriptor := none
  parameterCount := none
  parameters := none
  parameter := none
  returns := none
  access := none
  annotatedWith := []

inductive ClassCondition where
  /-- On the direct super class; a class without one does not meet it. -/
  | extends (name : NameCondition)
  /-- On one of the interfaces that the class itself names. -/
  | implements (name : NameCondition)
  | access (condition : AccessCondition)
  | declaresField (condition : FieldCondition)
  | declaresMethod (condition : MethodCondition)
  | annotatedWith (names : List String)
  | allOf (conditions : List ClassCondition)
  | anyOf (conditions : List ClassCondition)
  | not (condition : ClassCondition)

namespace ClassCondition

def inOutline (info : ClassInfo) (test : Outline → Bool) : Bool :=
  match info.outline? with
  | some outline => test outline
  | none => false

mutual

def holds (info : ClassInfo) : ClassCondition → Bool
  | .extends name =>
    match info.getHeader.superName with
    | some superName => name.holds superName
    | none => false
  | .implements name => info.getHeader.interfaces.any name.holds
  | .access condition => condition.holds info.getHeader.access
  | .declaresField condition => inOutline info fun outline => outline.fields.any condition.holds
  | .declaresMethod condition => inOutline info fun outline => outline.methods.any condition.holds
  | .annotatedWith names => inOutline info fun outline => outline.annotations.any names.contains
  | .allOf conditions => allHold info conditions
  | .anyOf conditions => anyHolds info conditions
  | .not condition => !holds info condition

def allHold (info : ClassInfo) : List ClassCondition → Bool
  | [] => true
  | condition :: rest => holds info condition && allHold info rest

def anyHolds (info : ClassInfo) : List ClassCondition → Bool
  | [] => false
  | condition :: rest => holds info condition || anyHolds info rest

end

mutual

def needsOutline : ClassCondition → Bool
  | .extends _ | .implements _ | .access _ => false
  | .declaresField _ | .declaresMethod _ | .annotatedWith _ => true
  | .allOf conditions | .anyOf conditions => anyNeedsOutline conditions
  | .not condition => condition.needsOutline

def anyNeedsOutline : List ClassCondition → Bool
  | [] => false
  | condition :: rest => condition.needsOutline || anyNeedsOutline rest

end

mutual

def annotationNames : ClassCondition → List String
  | .annotatedWith names => names
  | .declaresMethod condition => condition.annotatedWith
  | .extends _ | .implements _ | .access _ | .declaresField _ => []
  | .allOf conditions | .anyOf conditions => annotationNamesOfAll conditions
  | .not condition => condition.annotationNames

def annotationNamesOfAll : List ClassCondition → List String
  | [] => []
  | condition :: rest => condition.annotationNames ++ annotationNamesOfAll rest

end

mutual

/-- The same condition with every class name in internal form. Names of members, descriptors and
types stay as they are. -/
def toInternal : ClassCondition → ClassCondition
  | .extends name => .extends name.toInternal
  | .implements name => .implements name.toInternal
  | .access condition => .access condition
  | .declaresField condition => .declaresField condition
  | .declaresMethod condition => .declaresMethod
      { condition with annotatedWith := condition.annotatedWith.map ClassName.toInternal }
  | .annotatedWith names => .annotatedWith (names.map ClassName.toInternal)
  | .allOf conditions => .allOf (allToInternal conditions)
  | .anyOf conditions => .anyOf (allToInternal conditions)
  | .not condition => .not condition.toInternal

def allToInternal : List ClassCondition → List ClassCondition
  | [] => []
  | condition :: rest => condition.toInternal :: allToInternal rest

end

theorem allHold_eq_all (info : ClassInfo) (conditions : List ClassCondition) :
    allHold info conditions = conditions.all (holds info) := by
  induction conditions with
  | nil => simp [allHold]
  | cons condition rest ih => simp [allHold, ih]

theorem anyHolds_eq_any (info : ClassInfo) (conditions : List ClassCondition) :
    anyHolds info conditions = conditions.any (holds info) := by
  induction conditions with
  | nil => simp [anyHolds]
  | cons condition rest ih => simp [anyHolds, ih]

theorem anyNeedsOutline_eq_any (conditions : List ClassCondition) :
    anyNeedsOutline conditions = conditions.any needsOutline := by
  induction conditions with
  | nil => simp [anyNeedsOutline]
  | cons condition rest ih => simp [anyNeedsOutline, ih]

theorem annotationNamesOfAll_eq_flatMap (conditions : List ClassCondition) :
    annotationNamesOfAll conditions = conditions.flatMap annotationNames := by
  induction conditions with
  | nil => simp [annotationNamesOfAll]
  | cons condition rest ih => simp [annotationNamesOfAll, ih]

end ClassCondition

end ClassSieve
