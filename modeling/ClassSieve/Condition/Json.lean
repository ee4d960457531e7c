import ClassSieve.Condition
import ClassSieve.Json

/-!
# Conditions as JSON

Each condition has a written form in which every field appears, and is read from forms that leave
fields out. A condition on a class names its kind. A condition on a name is a plain string, or a
record with one field; of several such fields the first that fits decides.
-/
namespace ClassSieve
open Json (record? listOf? defaulted optionalField ofOption ofStrings)

namespace AccessFlag

def names : List (AccessFlag × String) :=
  [(publicFlag, "public"), (privateFlag, "private"), (protectedFlag, "protected"),
    (staticFlag, "static"), (finalFlag, "final"), (synchronizedFlag, "synchronized"),
    (volatileFlag, "volatile"), (bridgeFlag, "bridge"), (transientFlag, "transient"),
    (varargsFlag, "varargs"), (nativeFlag, "native"), (interfaceFlag, "interface"),
    (abstractFlag, "abstract"), (strictFlag, "strict"), (syntheticFlag, "synthetic"),
    (annotationFlag, "annotation"), (enumFlag, "enum"), (moduleFlag, "module")]

def name (flag : AccessFlag) : String := (names.lookup flag).getD ""

def ofName? (text : String) : Option AccessFlag :=
  (names.find? fun entry => entry.2 = text).map Prod.fst

end AccessFlag

namespace AccessCondition

def toJson (condition : AccessCondition) : Json :=
  .object [("all_of", ofStrings (condition.allOf.map AccessFlag.name)),
    ("none_of", ofStrings (condition.noneOf.map AccessFlag.name))]

def ofJsonWith? (unit : Json → Option String) (value : Json) : Option AccessCondition := do
  let flag (item : Json) := (unit item).bind AccessFlag.ofName?
  match ← record? ["all_of", "none_of"] value with
  | [allOf, noneOf] => return {
      allOf := ← defaulted [] (listOf? flag) allOf
      noneOf := ← defaulted [] (listOf? flag) noneOf }
  | _ => none

def ofJson? : Json → Option AccessCondition := ofJsonWith? Json.unitName?

def ofInnerJson? : Json → Option AccessCondition := ofJsonWith? Json.innerUnitName?

end AccessCondition

namespace NameCondition

def toJson : NameCondition → Json
  | exactly name => .string name
  | oneOf names => .object [("one_of", ofStrings names)]
  | startsWith front => .object [("starts_with", .string front)]
  | endsWith back => .object [("ends_with", .string back)]

def form? {α : Type} (key : String) (read : Json → Option α) : Json → Option α
  | .object members => do (← Json.unique? members key).bind read
  | _ => none

def ofJson? (value : Json) : Option NameCondition :=
  (value.string?.map exactly)
    <|> ((form? "one_of" (listOf? Json.string?) value).map oneOf)
    <|> ((form? "starts_with" Json.string? value).map startsWith)
    <|> ((form? "ends_with" Json.string? value).map endsWith)

end NameCondition

namespace FieldCondition

def toMembers (condition : FieldCondition) : List (String × Json) :=
  [("name", ofOption NameCondition.toJson condition.name),
    ("descriptor", ofOption .string condition.descriptor),
    ("of_type", ofOption .string condition.type),
    ("access", ofOption AccessCondition.toJson condition.access)]

def ofJson? (value : Json) : Option FieldCondition := do
  match ← record? ["name", "descriptor", "of_type", "access"] value with
  | [name, descriptor, type, access] => return {
      name := ← optionalField NameCondition.ofJson? name
      descriptor := ← optionalField Json.string? descriptor
      type := ← optionalField Json.string? type
      access := ← optionalField AccessCondition.ofInnerJson? access }
  | _ => none

end FieldCondition

namespace MethodForm

def name : MethodForm → String
  | constructor => "constructor"
  | staticInitializer => "static_initializer"
  | method => "method"

def ofJson? (value : Json) : Option MethodForm := do
  match ← value.innerUnitName? with
  | "constructor" => return constructor
  | "static_initializer" => return staticInitializer
  | "method" => return method
  | _ => none

end MethodForm

namespace ParameterCondition

def toJson (condition : ParameterCondition) : Json :=
  .object [("index", .natural condition.index), ("type", .string condition.type)]

def ofJson? (value : Json) : Option ParameterCondition := do
  match ← record? ["index", "type"] value with
  | [some index, some type] => return { index := ← index.natural?, type := ← type.string? }
  | _ => none

end ParameterCondition

namespace MethodCondition

def toMembers (condition : MethodCondition) : List (String × Json) :=
  [("name", ofOption NameCondition.toJson condition.name),
    ("form", ofOption (fun form => .string form.name) condition.form),
    ("descriptor", ofOption .string condition.descriptor),
    ("parameter_count", ofOption .natural condition.parameterCount),
    ("parameters", ofOption ofStrings condition.parameters),
    ("parameter", ofOption ParameterCondition.toJson condition.parameter),
    ("returns", ofOption .string condition.returns),
    ("access", ofOption AccessCondition.toJson condition.access),
    ("annotated_with", ofStrings condition.annotatedWith)]

def ofJson? (value : Json) : Option MethodCondition := do
  match ← record? ["name", "form", "descriptor", "parameter_count", "parameters", "parameter",
      "returns", "access", "annotated_with"] value with
  | [name, form, descriptor, parameterCount, parameters, parameter, returns, access,
      annotatedWith] => return {
      name := ← optionalField NameCondition.ofJson? name
      form := ← optionalField MethodForm.ofJson? form
      descriptor := ← optionalField Json.string? descriptor
      parameterCount := ← optionalField Json.natural? parameterCount
      parameters := ← optionalField (listOf? Json.string?) parameters
      parameter := ← optionalField ParameterCondition.ofJson? parameter
      returns := ← optionalField Json.string? returns
      access := ← optionalField AccessCondition.ofInnerJson? access
      annotatedWith := ← defaulted [] (listOf? Json.string?) annotatedWith }
  | _ => none

end MethodCondition

namespace ClassCondition

def ofKind (kind : String) (members : List (String × Json)) : Json :=
  .object (("kind", .string kind) :: members)

mutual

def toJson : ClassCondition → Json
  | .extends name => ofKind "extends" [("name", name.toJson)]
  | .implements name => ofKind "implements" [("name", name.toJson)]
  | .access condition => ofKind "access"
      [("all_of", ofStrings (condition.allOf.map AccessFlag.name)),
        ("none_of", ofStrings (condition.noneOf.map AccessFlag.name))]
  | .declaresField condition => ofKind "declares_field" condition.toMembers
  | .declaresMethod condition => ofKind "declares_method" condition.toMembers
  | .annotatedWith names => ofKind "annotated_with" [("annotations", ofStrings names)]
  | .allOf conditions => ofKind "all_of" [("matchers", .array (allToJson conditions))]
  | .anyOf conditions => ofKind "any_of" [("matchers", .array (allToJson conditions))]
  | .not condition => ofKind "not" [("matcher", condition.toJson)]

def allToJson : List ClassCondition → List Json
  | [] => []
  | condition :: rest => condition.toJson :: allToJson rest

end

def soleField? {α : Type} (key : String) (read : Json → Option α) (value : Json) : Option α := do
  match ← record? [key] value with
  | [some field] => read field
  | _ => none

def kinds : List String :=
  ["extends", "implements", "access", "declares_field", "declares_method", "annotated_with",
    "all_of", "any_of", "not"]

/-- A kind, which may be written as its place among the kinds inside another condition. -/
def kind? (inner : Bool) : Json → Option String
  | .natural place => if inner then kinds[place]? else none
  | value => value.string?

def ofJsonWithin? (levels : Nat) (inner : Bool) (value : Json) : Option ClassCondition :=
  match levels with
  | 0 => none
  | levels + 1 => do
    let (kind, fields) ← Json.tagged? "kind" (kind? inner) value
    match kind with
    | "extends" => return .extends (← soleField? "name" NameCondition.ofJson? fields)
    | "implements" => return .implements (← soleField? "name" NameCondition.ofJson? fields)
    | "access" => return .access (← AccessCondition.ofInnerJson? fields)
    | "declares_field" => return .declaresField (← FieldCondition.ofJson? fields)
    | "declares_method" => return .declaresMethod (← MethodCondition.ofJson? fields)
    | "annotated_with" =>
      return .annotatedWith (← soleField? "annotations" (listOf? Json.string?) fields)
    | "all_of" =>
      return .allOf (← soleField? "matchers" (listOf? (ofJsonWithin? levels true)) fields)
    | "any_of" =>
      return .anyOf (← soleField? "matchers" (listOf? (ofJsonWithin? levels true)) fields)
    | "not" => return .not (← soleField? "matcher" (ofJsonWithin? levels true) fields)
    | _ => none

def ofJson? (value : Json) : Option ClassCondition :=
  if value.isReadable then ofJsonWithin? (value.depth + 1) false value else none

end ClassCondition

end ClassSieve
