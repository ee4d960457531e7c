import ClassSieve.Proofs.Descriptor.Respelling
import ClassSieve.Proofs.Rules.Decision
import ClassSieve.Rules.Policy

/-!
# Sheets that differ in separators

Whoever writes rules may put dots or slashes into the names of classes, in patterns, in conditions
and in types. `RuleSheet.Respelled` relates two sheets that differ in nothing else, at any depth.
Either both are refused, or their policies evaluate every class alike. Conditions on members come
out of a sheet as they stand there, but for the names of annotations.
-/
namespace ClassSieve
open ClassFile

/-! ## Conditions -/

inductive NameCondition.Respelled : NameCondition → NameCondition → Prop
  | exactly {name other : String} (h : ClassName.Respelled name other) :
    Respelled (.exactly name) (.exactly other)
  | oneOf {names others : List String} (h : List.Forall₂ ClassName.Respelled names others) :
    Respelled (.oneOf names) (.oneOf others)
  | startsWith {front other : String} (h : ClassName.Respelled front other) :
    Respelled (.startsWith front) (.startsWith other)
  | endsWith {back other : String} (h : ClassName.Respelled back other) :
    Respelled (.endsWith back) (.endsWith other)

theorem NameCondition.Respelled.toInternal_eq {a b : NameCondition} (h : a.Respelled b) :
    a.toInternal = b.toInternal := by
  cases h with
  | exactly h => exact congrArg NameCondition.exactly h.toInternal_eq
  | oneOf h => exact congrArg NameCondition.oneOf (ClassName.map_toInternal_eq h)
  | startsWith h => exact congrArg NameCondition.startsWith h.toInternal_eq
  | endsWith h => exact congrArg NameCondition.endsWith h.toInternal_eq

structure FieldCondition.Respelled (a b : FieldCondition) : Prop where
  name : a.name = b.name
  descriptor : a.descriptor = b.descriptor
  type : Option.Rel ClassName.Respelled a.type b.type
  access : a.access = b.access

theorem holdsIfAny_congr {α β : Type} {R : α → β → Prop} {a : Option α} {b : Option β}
    {test : α → Bool} {otherTest : β → Bool} (h : Option.Rel R a b)
    (hR : ∀ x y, R x y → test x = otherTest y) : holdsIfAny a test = holdsIfAny b otherTest := by
  cases h with
  | none => rfl
  | some hxy => exact hR _ _ hxy

theorem FieldCondition.Respelled.holds_eq {a b : FieldCondition} (h : a.Respelled b)
    (field : Field) : a.holds field = b.holds field := by
  have htype :
      holdsIfAny a.type (fun type => decide (Descriptor.ofSource type = field.descriptor)) =
        holdsIfAny b.type fun type => decide (Descriptor.ofSource type = field.descriptor) := by
    refine holdsIfAny_congr h.type fun type other hother => ?_
    rw [Descriptor.ofSource_respelled hother]
  rw [holds, holds, h.name, h.descriptor, h.access, htype]

structure ParameterCondition.Respelled (a b : ParameterCondition) : Prop where
  index : a.index = b.index
  type : ClassName.Respelled a.type b.type

structure MethodCondition.Respelled (a b : MethodCondition) : Prop where
  name : a.name = b.name
  form : a.form = b.form
  descriptor : a.descriptor = b.descriptor
  parameterCount : a.parameterCount = b.parameterCount
  parameters : Option.Rel (List.Forall₂ ClassName.Respelled) a.parameters b.parameters
  parameter : Option.Rel ParameterCondition.Respelled a.parameter b.parameter
  returns : a.returns = b.returns
  access : a.access = b.access
  annotatedWith : List.Forall₂ ClassName.Respelled a.annotatedWith b.annotatedWith

namespace MethodCondition

def internalAnnotations (condition : MethodCondition) : MethodCondition :=
  { condition with annotatedWith := condition.annotatedWith.map ClassName.toInternal }

theorem Respelled.holds_eq {a b : MethodCondition} (h : a.Respelled b) (method : Method) :
    a.internalAnnotations.holds method = b.internalAnnotations.holds method := by
  have hparameters : holdsIfAny a.parameters (Descriptor.parametersAre · method.descriptor) =
      holdsIfAny b.parameters (Descriptor.parametersAre · method.descriptor) := by
    refine holdsIfAny_congr h.parameters fun types others hothers => ?_
    rw [Descriptor.parametersAre, Descriptor.parametersAre]
    split
    · exact Descriptor.takesExactly_congr
        (map_eq_of_forall₂ hothers fun _ _ => Descriptor.ofSource_respelled) _
    · rfl
  have hparameter :
      holdsIfAny a.parameter (fun wanted =>
          decide (method.parameters[wanted.index]? = some (Descriptor.ofSource wanted.type))) =
        holdsIfAny b.parameter fun wanted =>
          decide (method.parameters[wanted.index]? = some (Descriptor.ofSource wanted.type)) := by
    refine holdsIfAny_congr h.parameter fun wanted other hother => ?_
    rw [hother.index, Descriptor.ofSource_respelled hother.type]
  simp only [holds, internalAnnotations, h.name, h.form, h.descriptor, h.parameterCount, h.returns,
    h.access, hparameters, hparameter, ClassName.map_toInternal_eq h.annotatedWith]

end MethodCondition

namespace ClassCondition

inductive Respelled : ClassCondition → ClassCondition → Prop
  | extends {name other : NameCondition} (h : name.Respelled other) :
    Respelled (.extends name) (.extends other)
  | implements {name other : NameCondition} (h : name.Respelled other) :
    Respelled (.implements name) (.implements other)
  | access (condition : AccessCondition) : Respelled (.access condition) (.access condition)
  | declaresField {condition other : FieldCondition} (h : condition.Respelled other) :
    Respelled (.declaresField condition) (.declaresField other)
  | declaresMethod {condition other : MethodCondition} (h : condition.Respelled other) :
    Respelled (.declaresMethod condition) (.declaresMethod other)
  | annotatedWith {names others : List String} (h : List.Forall₂ ClassName.Respelled names others) :
    Respelled (.annotatedWith names) (.annotatedWith others)
  | allOf {conditions others : List ClassCondition} (h : List.Forall₂ Respelled conditions others) :
    Respelled (.allOf conditions) (.allOf others)
  | anyOf {conditions others : List ClassCondition} (h : List.Forall₂ Respelled conditions others) :
    Respelled (.anyOf conditions) (.anyOf others)
  | not {condition other : ClassCondition} (h : Respelled condition other) :
    Respelled (.not condition) (.not other)

/-- Whether two conditions ask for the same of every class, and for the same to be read of it. -/
structure Agree (a b : ClassCondition) : Prop where
  annotationNames : a.annotationNames = b.annotationNames
  needsOutline : a.needsOutline = b.needsOutline
  holds : ∀ info, a.holds info = b.holds info

namespace Agree
variable {a b : ClassCondition} {conditions others : List ClassCondition}

theorem refl (a : ClassCondition) : Agree a a := ⟨rfl, rfl, fun _ => rfl⟩

theorem not (h : a.Agree b) : Agree (.not a) (.not b) where
  annotationNames := h.annotationNames
  needsOutline := h.needsOutline
  holds info := by rw [ClassCondition.holds, ClassCondition.holds, h.holds]

theorem annotationNamesOfAll_eq (h : List.Forall₂ Agree conditions others) :
    annotationNamesOfAll conditions = annotationNamesOfAll others := by
  rw [annotationNamesOfAll_eq_flatMap, annotationNamesOfAll_eq_flatMap]
  exact flatMap_eq_of_forall₂ h fun _ _ hsame => hsame.annotationNames

theorem anyNeedsOutline_eq (h : List.Forall₂ Agree conditions others) :
    anyNeedsOutline conditions = anyNeedsOutline others := by
  rw [anyNeedsOutline_eq_any, anyNeedsOutline_eq_any]
  exact any_eq_of_forall₂ h fun _ _ hsame => hsame.needsOutline

theorem allOf (h : List.Forall₂ Agree conditions others) :
    Agree (.allOf conditions) (.allOf others) where
  annotationNames := annotationNamesOfAll_eq h
  needsOutline := anyNeedsOutline_eq h
  holds info := by
    rw [ClassCondition.holds, ClassCondition.holds, allHold_eq_all, allHold_eq_all]
    exact all_eq_of_forall₂ h fun _ _ hsame => hsame.holds info

theorem anyOf (h : List.Forall₂ Agree conditions others) :
    Agree (.anyOf conditions) (.anyOf others) where
  annotationNames := annotationNamesOfAll_eq h
  needsOutline := anyNeedsOutline_eq h
  holds info := by
    rw [ClassCondition.holds, ClassCondition.holds, anyHolds_eq_any, anyHolds_eq_any]
    exact any_eq_of_forall₂ h fun _ _ hsame => hsame.holds info

end Agree

mutual

theorem Respelled.agree : ∀ {a b : ClassCondition}, a.Respelled b →
    a.toInternal.Agree b.toInternal
  | .extends name, _, .extends h => by
    rw [toInternal, toInternal, h.toInternal_eq]
    exact .refl _
  | .implements name, _, .implements h => by
    rw [toInternal, toInternal, h.toInternal_eq]
    exact .refl _
  | .access _, _, .access _ => .refl _
  | .declaresField condition, _, .declaresField h => by
    refine ⟨rfl, rfl, fun info => ?_⟩
    rw [toInternal, toInternal, holds, holds, funext h.holds_eq]
  | .declaresMethod condition, _, .declaresMethod h => by
    refine ⟨ClassName.map_toInternal_eq h.annotatedWith, rfl, fun info => ?_⟩
    change inOutline info (fun outline => outline.methods.any condition.internalAnnotations.holds) =
      inOutline info fun outline => outline.methods.any _
    rw [funext h.holds_eq]
    rfl
  | .annotatedWith names, _, .annotatedWith h => by
    rw [toInternal, toInternal, ClassName.map_toInternal_eq h]
    exact .refl _
  | .allOf conditions, _, .allOf h => by
    rw [toInternal, toInternal]
    exact .allOf (agree_of_forall₂ h)
  | .anyOf conditions, _, .anyOf h => by
    rw [toInternal, toInternal]
    exact .anyOf (agree_of_forall₂ h)
  | .not condition, _, .not h => by
    rw [toInternal, toInternal]
    exact h.agree.not

theorem agree_of_forall₂ : ∀ {conditions others : List ClassCondition},
    List.Forall₂ Respelled conditions others →
      List.Forall₂ Agree (allToInternal conditions) (allToInternal others)
  | [], _, .nil => .nil
  | _ :: _, _, .cons hfirst hrest => .cons hfirst.agree (agree_of_forall₂ hrest)

end

mutual

def memberConditions : ClassCondition → List (FieldCondition ⊕ MethodCondition)
  | .declaresField condition => [.inl condition]
  | .declaresMethod condition => [.inr condition]
  | .extends _ | .implements _ | .access _ | .annotatedWith _ => []
  | .allOf conditions | .anyOf conditions => memberConditionsOfAll conditions
  | .not condition => condition.memberConditions

def memberConditionsOfAll : List ClassCondition → List (FieldCondition ⊕ MethodCondition)
  | [] => []
  | condition :: rest => condition.memberConditions ++ memberConditionsOfAll rest

end

mutual

theorem memberConditions_toInternal : ∀ condition : ClassCondition,
    condition.toInternal.memberConditions =
      condition.memberConditions.map (Sum.map id MethodCondition.internalAnnotations)
  | .declaresField _ | .declaresMethod _ => rfl
  | .extends _ | .implements _ | .access _ | .annotatedWith _ => rfl
  | .allOf conditions | .anyOf conditions => memberConditionsOfAll_toInternal conditions
  | .not condition => memberConditions_toInternal condition

theorem memberConditionsOfAll_toInternal : ∀ conditions : List ClassCondition,
    memberConditionsOfAll (allToInternal conditions) =
      (memberConditionsOfAll conditions).map (Sum.map id MethodCondition.internalAnnotations)
  | [] => rfl
  | condition :: rest => by
    rw [allToInternal, memberConditionsOfAll, memberConditionsOfAll, List.map_append,
      memberConditions_toInternal condition, memberConditionsOfAll_toInternal rest]

end

end ClassCondition

/-! ## Policies and sheets -/

structure StructuralRule.Respelled (a b : StructuralRule) : Prop where
  verdict : a.verdict = b.verdict
  condition : a.condition.Respelled b.condition

namespace Policy

def AgreeOn (rules others : List StructuralRule) : Prop :=
  List.Forall₂ (fun a b => a.verdict = b.verdict ∧ a.condition.Agree b.condition) rules others

variable {rules others : List StructuralRule}

theorem AgreeOn.decideStructural_eq (h : AgreeOn rules others) (info : ClassInfo)
    (included : Bool) : decideStructural info included rules =
      decideStructural info included others := by
  induction h generalizing included with
  | nil => rfl
  | cons hfirst _ ih =>
    obtain ⟨hverdict, hcondition⟩ := hfirst
    rw [decideStructural, decideStructural, hverdict, hcondition.holds, ih, ih]

theorem AgreeOn.annotationNames_eq (h : AgreeOn rules others) :
    rules.flatMap (fun rule => rule.condition.annotationNames) =
      others.flatMap fun rule => rule.condition.annotationNames :=
  flatMap_eq_of_forall₂ h fun _ _ hrule => hrule.2.annotationNames

theorem AgreeOn.needsOutline_eq (h : AgreeOn rules others) :
    rules.any (fun rule => rule.condition.needsOutline) =
      others.any fun rule => rule.condition.needsOutline :=
  any_eq_of_forall₂ h fun _ _ hrule => hrule.2.needsOutline

theorem AgreeOn.evaluate_eq (h : AgreeOn rules others) (names : NamePolicy) (name : Option String)
    (bytes : Bytes) : evaluate ⟨names, rules⟩ name bytes = evaluate ⟨names, others⟩ name bytes := by
  have hdecide (byName : Decision) (info : ClassInfo) :
      decideWith ⟨names, rules⟩ byName info = decideWith ⟨names, others⟩ byName info := by
    cases byName <;> simp only [decideWith, h.decideStructural_eq]
  have hneeds (byName : Decision) :
      needsOutline ⟨names, rules⟩ byName = needsOutline ⟨names, others⟩ byName := by
    rw [needsOutline, needsOutline, requiresOutline, requiresOutline, h.needsOutline_eq]
  have hinterest : interest ⟨names, rules⟩ = interest ⟨names, others⟩ := by
    rw [interest, interest, h.annotationNames_eq]
  simp only [evaluate, hneeds, hinterest, hdecide]

theorem agreeOn_of_respelled (h : List.Forall₂ StructuralRule.Respelled rules others) :
    AgreeOn (rules.map fun rule => { rule with condition := rule.condition.toInternal })
      (others.map fun rule => { rule with condition := rule.condition.toInternal }) := by
  rw [AgreeOn, List.forall₂_map_left_iff, List.forall₂_map_right_iff]
  exact h.imp fun _ _ hrule => ⟨hrule.verdict, hrule.condition.agree⟩

end Policy

structure NameRule.Respelled (a b : NameRule) : Prop where
  pattern : ClassName.Respelled a.pattern b.pattern
  verdict : a.verdict = b.verdict

namespace RuleSheet

/-- Whether two sheets differ in nothing but dots in the place of slashes, or the other way round,
in patterns, names of classes and types. -/
structure Respelled (sheet other : RuleSheet) : Prop where
  precedence : sheet.precedence = other.precedence
  rules : List.Forall₂ NameRule.Respelled sheet.rules other.rules
  structural : List.Forall₂ StructuralRule.Respelled sheet.structural other.structural

variable {sheet other : RuleSheet}

theorem parse_of_respelled {a b : NameRule} (h : a.Respelled b) {pattern : Pattern} :
    Pattern.parse a.pattern a.verdict = .ok pattern ↔
      Pattern.parse b.pattern b.verdict = .ok pattern := by
  rw [← Pattern.parse_toInternal, h.pattern.toInternal_eq, Pattern.parse_toInternal, h.verdict]

theorem patterns_of_respelled {rules others : List NameRule}
    (h : List.Forall₂ NameRule.Respelled rules others) {patterns : List Pattern} :
    (rules.mapM fun rule => Pattern.parse rule.pattern rule.verdict) = .ok patterns ↔
      (others.mapM fun rule => Pattern.parse rule.pattern rule.verdict) = .ok patterns := by
  induction h generalizing patterns with
  | nil => rfl
  | cons hfirst _ ih =>
    simp only [List.mapM_cons, except_bind_eq_ok, parse_of_respelled hfirst, ih]

theorem compile_eq_ok {policy : Policy} : sheet.compile = .ok policy ↔
    ∃ patterns, sheet.patterns = .ok patterns ∧
      policy = Policy.ofRules (NamePolicy.ofPatterns patterns sheet.precedence) sheet.structural :=
  except_bind_eq_ok.trans (by simp [pure, Except.pure, eq_comm])

/-- Sheets that differ in separators are both refused, or their policies answer alike. -/
theorem compile_respelled (sheet other : RuleSheet) (h : sheet.Respelled other) :
    (((∃ error, sheet.compile = .error error) ∧ ∃ error, other.compile = .error error) ∨
      ∃ policy otherPolicy, sheet.compile = .ok policy ∧ other.compile = .ok otherPolicy ∧
        ∀ name bytes, policy.evaluate name bytes = otherPolicy.evaluate name bytes) ∧
    ∀ policy, sheet.compile = .ok policy →
      policy.structural.flatMap (fun rule => rule.condition.memberConditions) =
        (sheet.structural.flatMap fun rule => rule.condition.memberConditions).map
          (Sum.map id MethodCondition.internalAnnotations) := by
  have hpatterns (patterns : List Pattern) :
      sheet.patterns = .ok patterns ↔ other.patterns = .ok patterns :=
    patterns_of_respelled h.rules
  constructor
  · cases hparsed : sheet.patterns with
    | error error =>
      cases hother : other.patterns with
      | error otherError =>
        refine .inl ⟨⟨error, ?_⟩, otherError, ?_⟩
        · rw [compile, hparsed]
          rfl
        · rw [compile, hother]
          rfl
      | ok patterns => cases hparsed.symm.trans ((hpatterns patterns).2 hother)
    | ok patterns =>
      refine .inr ⟨_, _, compile_eq_ok.2 ⟨patterns, hparsed, rfl⟩,
        compile_eq_ok.2 ⟨patterns, (hpatterns patterns).1 hparsed, rfl⟩, fun name bytes => ?_⟩
      rw [h.precedence]
      exact (Policy.agreeOn_of_respelled h.structural).evaluate_eq _ name bytes
  · intro policy hpolicy
    obtain ⟨patterns, -, rfl⟩ := compile_eq_ok.1 hpolicy
    simp only [Policy.ofRules, List.flatMap_map, List.map_flatMap,
      ClassCondition.memberConditions_toInternal]

def sampleMethod (type mark : String) : MethodCondition :=
  { MethodCondition.any with parameters := some ["int", type], annotatedWith := [mark] }

def sampleSheet (pattern package type mark : String) : RuleSheet where
  precedence := .mostSpecific
  rules := [⟨pattern, .included⟩]
  structural := [⟨.excluded, .not (.anyOf
    [.extends (.startsWith package), .declaresMethod (sampleMethod type mark)])⟩]

theorem respelled_sampleMethod : (sampleMethod "java.lang.String[]" "x.Y").Respelled
    (sampleMethod "java/lang.String[]" "x/Y") where
  name := rfl
  form := rfl
  descriptor := rfl
  parameterCount := rfl
  parameters := .some (.cons (by decide) (.cons (by decide) .nil))
  parameter := .none
  returns := rfl
  access := rfl
  annotatedWith := .cons (by decide) .nil

theorem respelled_sampleSheet :
    (sampleSheet "com.foo.*" "a/b." "java.lang.String[]" "x.Y").Respelled
      (sampleSheet "com/foo.*" "a.b/" "java/lang.String[]" "x/Y") where
  precedence := rfl
  rules := .cons ⟨by decide, rfl⟩ .nil
  structural := .cons ⟨rfl, .not (.anyOf (.cons (.extends (.startsWith (by decide)))
    (.cons (.declaresMethod respelled_sampleMethod) .nil)))⟩ .nil

theorem compile_respelled_nested :
    ∃ policy otherPolicy,
      (sampleSheet "com.foo.*" "a/b." "java.lang.String[]" "x.Y").compile = .ok policy ∧
      (sampleSheet "com/foo.*" "a.b/" "java/lang.String[]" "x/Y").compile = .ok otherPolicy ∧
      ∀ name bytes, policy.evaluate name bytes = otherPolicy.evaluate name bytes := by
  have hcompiles : ∃ policy,
      (sampleSheet "com.foo.*" "a/b." "java.lang.String[]" "x.Y").compile = .ok policy := ⟨_, rfl⟩
  obtain ⟨policy, hpolicy⟩ := hcompiles
  rcases (compile_respelled _ _ respelled_sampleSheet).1 with ⟨⟨error, herror⟩, -⟩ | hboth
  · cases herror.symm.trans hpolicy
  · exact hboth

end RuleSheet

end ClassSieve
