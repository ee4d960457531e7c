import ClassSieve.Proofs.Json.Records
import ClassSieve.Proofs.Json.RoundTrip
import ClassSieve.Rules.Json
import Mathlib.Algebra.Group.Nat.Defs

/-!
# Rules survive their written form

A condition is read back from the JSON value that it is written as, whatever stands in it, and so is
a sheet. The value is printed and read back where its counts are numbers of 64 bits and it does not
nest too deeply.
-/
namespace ClassSieve
open Json (record?_object tagged?_object listOf?_map listOf?_ofStrings optionalField_ofOption
  ofOption ofStrings Plain)

/-! ## Reading what is written -/

theorem AccessFlag.ofName?_name (flag : AccessFlag) : ofName? flag.name = some flag := by
  cases flag <;> rfl

namespace AccessCondition

theorem ofJsonWith?_toJson {unit : Json → Option String}
    (h : ∀ name, unit (.string name) = some name) (condition : AccessCondition) :
    ofJsonWith? unit condition.toJson = some condition := by
  have hflags : ∀ flags : List AccessFlag,
      Json.listOf? (fun item => (unit item).bind AccessFlag.ofName?)
        (ofStrings (flags.map AccessFlag.name)) = some flags := by
    intro flags
    rw [ofStrings, List.map_map]
    apply listOf?_map
    intro flag hflag
    rw [Function.comp_apply, h]
    exact AccessFlag.ofName?_name flag
  rw [ofJsonWith?, toJson, record?_object (by rfl) (by decide)]
  simp [Json.defaulted, hflags]

theorem ofJson?_toJson (condition : AccessCondition) :
    ofJson? condition.toJson = some condition :=
  ofJsonWith?_toJson (fun _ => rfl) condition

theorem ofInnerJson?_toJson (condition : AccessCondition) :
    ofInnerJson? condition.toJson = some condition :=
  ofJsonWith?_toJson (fun _ => rfl) condition

theorem toJson_ne_null (condition : AccessCondition) : condition.toJson ≠ .null := nofun

end AccessCondition

namespace NameCondition

theorem ofJson?_toJson (condition : NameCondition) : ofJson? condition.toJson = some condition := by
  cases condition with
  | exactly name => rfl
  | oneOf names =>
    have hform : form? "one_of" (Json.listOf? Json.string?) (toJson (oneOf names)) = some names :=
      listOf?_ofStrings names
    rw [ofJson?, hform]
    rfl
  | startsWith front => rfl
  | endsWith back => rfl

theorem toJson_ne_null (condition : NameCondition) : condition.toJson ≠ .null := by
  cases condition <;> nofun

end NameCondition

theorem FieldCondition.ofJson?_toMembers (condition : FieldCondition) :
    ofJson? (.object condition.toMembers) = some condition := by
  have hname := optionalField_ofOption NameCondition.ofJson?_toJson NameCondition.toJson_ne_null
    condition.name
  have haccess := optionalField_ofOption AccessCondition.ofInnerJson?_toJson
    AccessCondition.toJson_ne_null condition.access
  rw [ofJson?, toMembers, record?_object (by rfl) (by decide)]
  simp [hname, haccess, Json.optionalField_string]

theorem MethodForm.ofJson?_name (form : MethodForm) : ofJson? (.string form.name) = some form := by
  cases form <;> rfl

theorem ParameterCondition.ofJson?_toJson (condition : ParameterCondition) :
    ofJson? condition.toJson = some condition := by
  rw [ofJson?, toJson, record?_object (by rfl) (by decide)]
  rfl

theorem MethodCondition.ofJson?_toMembers (condition : MethodCondition) :
    ofJson? (.object condition.toMembers) = some condition := by
  have hname := optionalField_ofOption NameCondition.ofJson?_toJson NameCondition.toJson_ne_null
    condition.name
  have hform := optionalField_ofOption MethodForm.ofJson?_name (fun _ => nofun) condition.form
  have hparameters := optionalField_ofOption listOf?_ofStrings (fun _ => nofun) condition.parameters
  have hparameter := optionalField_ofOption ParameterCondition.ofJson?_toJson (fun _ => nofun)
    condition.parameter
  have haccess := optionalField_ofOption AccessCondition.ofInnerJson?_toJson
    AccessCondition.toJson_ne_null condition.access
  rw [ofJson?, toMembers, record?_object (by rfl) (by decide)]
  simp [hname, hform, hparameters, hparameter, haccess, Json.optionalField_string,
    Json.optionalField_natural, Json.defaulted, listOf?_ofStrings]

namespace ClassCondition

theorem tagged?_ofKind {members : List (String × Json)} (h : "kind" ∉ members.map Prod.fst)
    (inner : Bool) (kind : String) :
    Json.tagged? "kind" (kind? inner) (ofKind kind members) = some (kind, .object members) := by
  rw [ofKind, tagged?_object h]
  rfl

theorem soleField?_object {α : Type} (read : Json → Option α) (key : String) (value : Json) :
    soleField? key read (.object [(key, value)]) = read value := by
  rw [soleField?, record?_object (by rfl) (by simp)]
  rfl

theorem depth_ofKind (kind key : String) (value : Json) :
    (ofKind kind [(key, value)]).depth = value.depth + 1 := by
  simp [ofKind, Json.depth, Json.depthOfMembers]

mutual

theorem ofJsonWithin?_toJson : ∀ (condition : ClassCondition) {levels : Nat} (inner : Bool),
    condition.toJson.depth < levels → ofJsonWithin? levels inner condition.toJson = some condition
  | _, 0, _, h => absurd h (Nat.not_lt_zero _)
  | .extends name, levels + 1, inner, _ => by
    rw [ofJsonWithin?, toJson, tagged?_ofKind (by simp)]
    simp [soleField?_object, NameCondition.ofJson?_toJson]
  | .implements name, levels + 1, inner, _ => by
    rw [ofJsonWithin?, toJson, tagged?_ofKind (by simp)]
    simp [soleField?_object, NameCondition.ofJson?_toJson]
  | .access condition, levels + 1, inner, _ => by
    have hread := AccessCondition.ofInnerJson?_toJson condition
    rw [AccessCondition.toJson] at hread
    rw [ofJsonWithin?, toJson, tagged?_ofKind (by simp)]
    simp [hread]
  | .declaresField condition, levels + 1, inner, _ => by
    rw [ofJsonWithin?, toJson, tagged?_ofKind (by simp [FieldCondition.toMembers])]
    simp [FieldCondition.ofJson?_toMembers]
  | .declaresMethod condition, levels + 1, inner, _ => by
    rw [ofJsonWithin?, toJson, tagged?_ofKind (by simp [MethodCondition.toMembers])]
    simp [MethodCondition.ofJson?_toMembers]
  | .annotatedWith names, levels + 1, inner, _ => by
    rw [ofJsonWithin?, toJson, tagged?_ofKind (by simp)]
    simp [soleField?_object, listOf?_ofStrings]
  | .allOf conditions, levels + 1, inner, h => by
    rw [toJson, depth_ofKind] at h
    have hread := listOf?_allToJson conditions (Nat.lt_of_succ_lt_succ h)
    rw [ofJsonWithin?, toJson, tagged?_ofKind (by simp)]
    simp [soleField?_object, hread]
  | .anyOf conditions, levels + 1, inner, h => by
    rw [toJson, depth_ofKind] at h
    have hread := listOf?_allToJson conditions (Nat.lt_of_succ_lt_succ h)
    rw [ofJsonWithin?, toJson, tagged?_ofKind (by simp)]
    simp [soleField?_object, hread]
  | .not condition, levels + 1, inner, h => by
    rw [toJson, depth_ofKind] at h
    have hread := ofJsonWithin?_toJson condition true (Nat.lt_of_succ_lt_succ h)
    rw [ofJsonWithin?, toJson, tagged?_ofKind (by simp)]
    simp [soleField?_object, hread]

theorem listOf?_allToJson : ∀ (conditions : List ClassCondition) {levels : Nat},
    (Json.array (allToJson conditions)).depth < levels →
      Json.listOf? (ofJsonWithin? levels true) (.array (allToJson conditions)) = some conditions
  | [], _, _ => rfl
  | condition :: rest, levels, h => by
    rw [allToJson, Json.depth, Json.depthOfItems] at h
    have hdepth : (Json.array (allToJson rest)).depth < levels := by
      rw [Json.depth]
      omega
    have hfirst : ofJsonWithin? levels true condition.toJson = some condition :=
      ofJsonWithin?_toJson condition true (by omega)
    have hrest := listOf?_allToJson rest hdepth
    rw [Json.listOf?] at hrest ⊢
    rw [allToJson, List.mapM_cons, hfirst, hrest]
    rfl

end

end ClassCondition

/-! ## What is written -/

section Written
variable {p : Nat → Prop}

theorem plain_ofStrings (texts : List String) : (ofStrings texts).Plain p := by
  apply Plain.array
  intro item hitem
  obtain ⟨text, -, rfl⟩ := List.mem_map.1 hitem
  exact .string text

theorem plain_ofOption {α : Type} {write : α → Json} {option : Option α}
    (h : ∀ a ∈ option, (write a).Plain p) : (ofOption write option).Plain p := by
  cases option with
  | none => exact .null
  | some a => exact h a rfl

theorem AccessCondition.depth_toJson (condition : AccessCondition) :
    condition.toJson.depth = 2 := by
  have hstrings : ∀ texts : List String, (ofStrings texts).depth = 1 := by
    intro texts
    induction texts with
    | nil => rfl
    | cons text rest ih =>
      simp only [ofStrings, List.map_cons, Json.depth, Json.depthOfItems] at ih ⊢
      omega
  simp [toJson, Json.depth, Json.depthOfMembers, hstrings]

theorem AccessCondition.plain_toJson (condition : AccessCondition) : condition.toJson.Plain p := by
  apply Plain.object
  simp [plain_ofStrings]

theorem NameCondition.plain_toJson (condition : NameCondition) : condition.toJson.Plain p := by
  cases condition with
  | exactly name => exact .string name
  | oneOf names => exact .object (by simp [plain_ofStrings])
  | startsWith front => exact .object (by simp [Plain.string])
  | endsWith back => exact .object (by simp [Plain.string])

theorem plain_ofText (text : Option String) : (ofOption .string text).Plain p :=
  plain_ofOption fun text _ => .string text

theorem FieldCondition.plain_toMembers (condition : FieldCondition) :
    ∀ member ∈ condition.toMembers, member.2.Plain p := by
  simp only [toMembers, List.forall_mem_cons]
  exact ⟨plain_ofOption fun name _ => name.plain_toJson, plain_ofText _, plain_ofText _,
    plain_ofOption fun access _ => access.plain_toJson, nofun⟩

def MethodCondition.counts (condition : MethodCondition) : List Nat :=
  condition.parameterCount.toList ++ condition.parameter.toList.map ParameterCondition.index

theorem MethodCondition.plain_toMembers {condition : MethodCondition}
    (h : ∀ count ∈ condition.counts, p count) :
    ∀ member ∈ condition.toMembers, member.2.Plain p := by
  have hcount : ∀ count ∈ condition.parameterCount, (Json.natural count).Plain p := by
    intro count hcount
    exact .natural (h count (List.mem_append_left _ (Option.mem_toList.2 hcount)))
  have hparameter : ∀ parameter ∈ condition.parameter, parameter.toJson.Plain p := by
    intro parameter hparameter
    have hindex := h parameter.index
      (List.mem_append_right _ (List.mem_map_of_mem (Option.mem_toList.2 hparameter)))
    exact .object (by simp [Plain.natural hindex, Plain.string])
  simp only [toMembers, List.forall_mem_cons]
  exact ⟨plain_ofOption fun name _ => name.plain_toJson, plain_ofOption fun form _ => .string _,
    plain_ofText _, plain_ofOption hcount, plain_ofOption fun texts _ => plain_ofStrings texts,
    plain_ofOption hparameter, plain_ofText _, plain_ofOption fun access _ => access.plain_toJson,
    plain_ofStrings _, nofun⟩

end Written

namespace ClassCondition
variable {p : Nat → Prop}

mutual

def counts : ClassCondition → List Nat
  | .declaresMethod condition => condition.counts
  | .extends _ | .implements _ | .access _ | .declaresField _ | .annotatedWith _ => []
  | .allOf conditions | .anyOf conditions => countsOfAll conditions
  | .not condition => condition.counts

def countsOfAll : List ClassCondition → List Nat
  | [] => []
  | condition :: rest => condition.counts ++ countsOfAll rest

end

theorem plain_ofKind (kind : String) {members : List (String × Json)}
    (h : ∀ member ∈ members, member.2.Plain p) : (ofKind kind members).Plain p :=
  .object (List.forall_mem_cons.2 ⟨.string kind, h⟩)

theorem plain_ofField (kind key : String) {value : Json} (h : value.Plain p) :
    (ofKind kind [(key, value)]).Plain p :=
  plain_ofKind kind (List.forall_mem_cons.2 ⟨h, nofun⟩)

mutual

theorem plain_toJson : ∀ {condition : ClassCondition},
    (∀ count ∈ condition.counts, p count) → condition.toJson.Plain p
  | .extends name, _ => plain_ofField _ _ name.plain_toJson
  | .implements name, _ => plain_ofField _ _ name.plain_toJson
  | .access condition, _ => plain_ofKind _ (by simp [plain_ofStrings])
  | .declaresField condition, _ => plain_ofKind _ condition.plain_toMembers
  | .declaresMethod condition, h => plain_ofKind _ (MethodCondition.plain_toMembers h)
  | .annotatedWith names, _ => plain_ofField _ _ (plain_ofStrings names)
  | .allOf conditions, h => plain_ofField _ _ (.array (plain_allToJson h))
  | .anyOf conditions, h => plain_ofField _ _ (.array (plain_allToJson h))
  | .not condition, h => plain_ofField _ _ (plain_toJson h)

theorem plain_allToJson : ∀ {conditions : List ClassCondition},
    (∀ count ∈ countsOfAll conditions, p count) → ∀ item ∈ allToJson conditions, item.Plain p
  | [], _ => nofun
  | condition :: rest, h => by
    obtain ⟨hfirst, hrest⟩ := List.forall_mem_append.1 h
    exact List.forall_mem_cons.2 ⟨plain_toJson hfirst, plain_allToJson hrest⟩

end

theorem ofJson?_toJson (condition : ClassCondition) :
    ofJson? condition.toJson = some condition := by
  have hplain : condition.toJson.Plain fun _ => True := plain_toJson fun _ _ => trivial
  rw [ofJson?, if_pos hplain.isReadable]
  exact ofJsonWithin?_toJson condition false (Nat.lt_succ_self _)

end ClassCondition

/-! ## Sheets -/

theorem Verdict.ofJson?_name (verdict : Verdict) :
    ofJson? (.string verdict.name) = some verdict := by
  cases verdict <;> rfl

theorem Precedence.ofJson?_name (precedence : Precedence) :
    ofJson? (.string precedence.name) = some precedence := by
  cases precedence <;> rfl

theorem NameRule.ofJson?_toJson (rule : NameRule) : ofJson? rule.toJson = some rule := by
  rw [ofJson?, toJson, record?_object (by rfl) (by decide)]
  simp [Json.string?, Verdict.ofJson?_name]

theorem StructuralRule.ofJson?_toJson (rule : StructuralRule) :
    ofJson? rule.toJson = some rule := by
  rw [ofJson?, toJson, record?_object (by rfl) (by decide)]
  simp [Verdict.ofJson?_name, ClassCondition.ofJson?_toJson]

namespace RuleSheet

theorem ofJson?_toJson (sheet : RuleSheet) : ofJson? sheet.toJson = some sheet := by
  have hrules := listOf?_map fun rule (_ : rule ∈ sheet.rules) => NameRule.ofJson?_toJson rule
  have hstructural := listOf?_map fun rule (_ : rule ∈ sheet.structural) =>
    StructuralRule.ofJson?_toJson rule
  rw [ofJson?, toJson, record?_object (by rfl) (by decide)]
  simp [Json.defaulted, Precedence.ofJson?_name, hrules, hstructural]

def counts (sheet : RuleSheet) : List Nat :=
  sheet.structural.flatMap fun rule => rule.condition.counts

theorem plain_toJson {p : Nat → Prop} {sheet : RuleSheet} (h : ∀ count ∈ sheet.counts, p count) :
    sheet.toJson.Plain p := by
  have hrules : ∀ item ∈ sheet.rules.map NameRule.toJson, item.Plain p := by
    intro item hitem
    obtain ⟨rule, -, rfl⟩ := List.mem_map.1 hitem
    exact .object (by simp [Plain.string])
  have hstructural : ∀ item ∈ sheet.structural.map StructuralRule.toJson, item.Plain p := by
    intro item hitem
    obtain ⟨rule, hrule, rfl⟩ := List.mem_map.1 hitem
    have hcondition : rule.condition.toJson.Plain p := by
      apply ClassCondition.plain_toJson
      exact fun count hcount => h count (List.mem_flatMap.2 ⟨rule, hrule, hcount⟩)
    exact .object (by simp [Plain.string, hcondition])
  exact .object (by simp [Plain.string, Plain.array hrules, Plain.array hstructural])

end RuleSheet

/-- A sheet, a condition on classes and one on access flags are each read back from the value that
they are written as. This value is read back from its printed form where it nests at most 127 levels
deep and its counts and indexes are below `2^64`; so a sheet is read from a file that it was printed
to. -/
theorem rules_survive_json (path : String) (hpath : Path.extension? path = some "json") :
    (∀ sheet : RuleSheet, RuleSheet.ofJson? sheet.toJson = some sheet ∧
      ((∀ count ∈ sheet.counts, count < 2 ^ 64) → sheet.toJson.depth ≤ 127 →
        Json.parse? sheet.toJson.render = some sheet.toJson ∧
          RuleSheet.ofFile? path sheet.toJson.render = some sheet)) ∧
    (∀ condition : ClassCondition, ClassCondition.ofJson? condition.toJson = some condition ∧
      ((∀ count ∈ condition.counts, count < 2 ^ 64) → condition.toJson.depth ≤ 127 →
        Json.parse? condition.toJson.render = some condition.toJson)) ∧
    ∀ condition : AccessCondition, AccessCondition.ofJson? condition.toJson = some condition ∧
      Json.parse? condition.toJson.render = some condition.toJson := by
  have hlargest : ∀ {count : Nat}, count < 2 ^ 64 → count ≤ Json.largestNatural := fun h =>
    Nat.le_of_lt_succ h
  refine ⟨fun sheet => ⟨sheet.ofJson?_toJson, fun hcounts hdepth => ?_⟩,
    fun condition => ⟨condition.ofJson?_toJson, fun hcounts hdepth => ?_⟩,
    fun condition => ⟨condition.ofJson?_toJson, ?_⟩⟩
  · have hplain := RuleSheet.plain_toJson fun count hcount => hlargest (hcounts count hcount)
    have hparse := hplain.parse?_render hdepth
    refine ⟨hparse, ?_⟩
    rw [RuleSheet.ofFile?, if_pos hpath, hparse]
    exact sheet.ofJson?_toJson
  · have hplain := ClassCondition.plain_toJson fun count hcount => hlargest (hcounts count hcount)
    exact hplain.parse?_render hdepth
  · apply condition.plain_toJson.parse?_render
    rw [condition.depth_toJson]
    decide

theorem rules_survive_json_nested :
    let sheet : RuleSheet := ⟨.mostSpecific, [⟨"com.example.**", .included⟩],
      [⟨.excluded, .not (.declaresMethod ⟨some (.startsWith "get"), none, none,
        some 18446744073709551615, none, none, none, none, ["java.lang.Deprecated"]⟩)⟩]⟩
    sheet.toJson.depth = 6 ∧
      RuleSheet.ofFile? "rules.json" sheet.toJson.render = some sheet := by
  intro sheet
  have hdepth : sheet.toJson.depth = 6 := by decide
  obtain ⟨hsheets, -⟩ := rules_survive_json "rules.json" (by decide)
  obtain ⟨-, hfile⟩ := (hsheets sheet).2 (by decide) (by omega)
  exact ⟨hdepth, hfile⟩

end ClassSieve
