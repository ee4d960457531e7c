import ClassSieve.Condition.Json
import ClassSieve.Json.Reader
import ClassSieve.Path
import ClassSieve.Rules.Lines

/-!
# Rule sheets as JSON

A sheet is a record of its precedence, its name rules and its structural rules, each of which may
be missing. A rules file with the extension `json` holds a sheet in this form, and any other holds
lines.
-/
namespace ClassSieve
open Json (record? listOf? defaulted)

namespace Verdict

def name : Verdict → String
  | included => "include"
  | excluded => "exclude"

def ofJson? (value : Json) : Option Verdict :=
  value.unitName?.bind fun text => [included, excluded].find? fun verdict => verdict.name = text

end Verdict

def Precedence.ofJson? (value : Json) : Option Precedence := value.unitName?.bind Precedence.ofName?

namespace NameRule

def toJson (rule : NameRule) : Json :=
  .object [("pattern", .string rule.pattern), ("verdict", .string rule.verdict.name)]

def ofJson? (value : Json) : Option NameRule := do
  match ← record? ["pattern", "verdict"] value with
  | [some pattern, some verdict] =>
    return { pattern := ← pattern.string?, verdict := ← Verdict.ofJson? verdict }
  | _ => none

end NameRule

namespace StructuralRule

def toJson (rule : StructuralRule) : Json :=
  .object [("verdict", .string rule.verdict.name), ("matcher", rule.condition.toJson)]

def ofJson? (value : Json) : Option StructuralRule := do
  match ← record? ["verdict", "matcher"] value with
  | [some verdict, some condition] =>
    return { verdict := ← Verdict.ofJson? verdict, condition := ← ClassCondition.ofJson? condition }
  | _ => none

end StructuralRule

namespace RuleSheet

def invalidJson : String := "Invalid rules JSON"

def toJson (sheet : RuleSheet) : Json :=
  .object [("precedence", .string sheet.precedence.name),
    ("rules", .array (sheet.rules.map NameRule.toJson)),
    ("structural", .array (sheet.structural.map StructuralRule.toJson))]

def ofJson? (value : Json) : Option RuleSheet := do
  match ← record? ["precedence", "rules", "structural"] value with
  | [precedence, rules, structural] => return {
      precedence := ← defaulted .excludeVeto Precedence.ofJson? precedence
      rules := ← defaulted [] (listOf? NameRule.ofJson?) rules
      structural := ← defaulted [] (listOf? StructuralRule.ofJson?) structural }
  | _ => none

def ofFile? (path text : String) : Option RuleSheet :=
  if Path.extension? path = some "json" then (Json.parse? text).bind ofJson?
  else (ofLines text).toOption

end RuleSheet

end ClassSieve
