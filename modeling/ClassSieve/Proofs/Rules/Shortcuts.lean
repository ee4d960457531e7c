import ClassSieve.Proofs.ClassFile.Restriction
import ClassSieve.Proofs.Rules.Decision

/-!
# Reading no more than a decision needs

A policy leaves the outline unread where no rule asks for it or the name excludes, and records no
annotation that no rule asks about. Whoever reads every class with more annotations of interest and
then judges every rule comes to the same decision.
-/
namespace ClassSieve
open ClassFile

namespace ClassFile.Interest

theorem mem_insert {interest : Interest} {name other : String} :
    name ∈ (interest.insert other).names ↔
      name ∈ interest.names ∨ name = ClassName.toInternal other := by
  rw [insert]
  split
  · rename_i hcontains
    have hmem : ClassName.toInternal other ∈ interest.names := List.contains_iff_mem.1 hcontains
    constructor
    · exact .inl
    · rintro (hname | rfl)
      · exact hname
      · exact hmem
  · exact List.mem_append.trans (or_congr_right List.mem_singleton)

theorem mem_insertAll {interest : Interest} {name : String} {names : List String} :
    name ∈ (interest.insertAll names).names ↔
      name ∈ interest.names ∨ ∃ other ∈ names, name = ClassName.toInternal other := by
  induction names generalizing interest with
  | nil => simp [insertAll]
  | cons first rest ih =>
    change name ∈ ((interest.insert first).insertAll rest).names ↔ _
    rw [ih, mem_insert, or_assoc]
    simp only [List.mem_cons, exists_eq_or_imp]

theorem mem_ofNames {name : String} {names : List String} :
    name ∈ (ofNames names).names ↔ ∃ other ∈ names, name = ClassName.toInternal other := by
  rw [ofNames, mem_insertAll]
  exact or_iff_right List.not_mem_nil

theorem any_keep {interest : Interest} {wanted : List String} (h : wanted ⊆ interest.names)
    (names : List String) :
    (interest.keep names).any wanted.contains = names.any wanted.contains := by
  rw [keep, List.any_filter]
  refine congrArg (List.any names) (funext fun name => ?_)
  cases hname : wanted.contains name with
  | false => rw [Bool.and_false]
  | true => rw [List.contains_iff_mem.2 (h (List.contains_iff_mem.1 hname)), Bool.and_true]

end ClassFile.Interest

theorem MethodCondition.holds_restrict {condition : MethodCondition} {interest : Interest}
    (h : condition.annotatedWith ⊆ interest.names) (method : Method) :
    condition.holds (method.restrict interest) = condition.holds method := by
  have hannotations : (method.restrict interest).annotations.any condition.annotatedWith.contains =
      method.annotations.any condition.annotatedWith.contains := Interest.any_keep h _
  rw [holds, holds, hannotations]
  rfl

namespace ClassCondition

mutual

theorem annotationNames_toInternal : ∀ condition : ClassCondition,
    condition.toInternal.annotationNames = condition.annotationNames.map ClassName.toInternal
  | .extends _ | .implements _ | .access _ | .declaresField _ => rfl
  | .declaresMethod _ | .annotatedWith _ => rfl
  | .allOf conditions | .anyOf conditions => annotationNamesOfAll_toInternal conditions
  | .not condition => annotationNames_toInternal condition

theorem annotationNamesOfAll_toInternal : ∀ conditions : List ClassCondition,
    annotationNamesOfAll (allToInternal conditions) =
      (annotationNamesOfAll conditions).map ClassName.toInternal
  | [] => rfl
  | condition :: rest => by
    rw [allToInternal, annotationNamesOfAll, annotationNamesOfAll, List.map_append,
      annotationNames_toInternal condition, annotationNamesOfAll_toInternal rest]

end

variable {interest : Interest} {outline : Outline}

mutual

/-- A condition that asks about annotations of interest alone is not affected by the loss of the
other ones, under negations as elsewhere. -/
theorem holds_restrict : ∀ {condition : ClassCondition},
    condition.annotationNames ⊆ interest.names →
      condition.holds (.outline (outline.restrict interest)) = condition.holds (.outline outline)
  | .extends _, _ | .implements _, _ | .access _, _ | .declaresField _, _ => rfl
  | .declaresMethod condition, h => by
    rw [holds, holds]
    change (outline.methods.map (Method.restrict interest)).any condition.holds =
      outline.methods.any condition.holds
    rw [List.any_map]
    exact congrArg (List.any outline.methods) (funext (MethodCondition.holds_restrict h))
  | .annotatedWith _, h => Interest.any_keep h outline.annotations
  | .allOf conditions, h => by
    rw [annotationNames] at h
    rw [holds, holds, allHold_restrict h]
  | .anyOf conditions, h => by
    rw [annotationNames] at h
    rw [holds, holds, anyHolds_restrict h]
  | .not condition, h => by
    rw [annotationNames] at h
    rw [holds, holds, holds_restrict h]

theorem allHold_restrict : ∀ {conditions : List ClassCondition},
    annotationNamesOfAll conditions ⊆ interest.names →
      allHold (.outline (outline.restrict interest)) conditions =
        allHold (.outline outline) conditions
  | [], _ => rfl
  | _ :: _, h => by
    obtain ⟨hfirst, hrest⟩ := List.append_subset.1 h
    rw [allHold, allHold, holds_restrict hfirst, allHold_restrict hrest]

theorem anyHolds_restrict : ∀ {conditions : List ClassCondition},
    annotationNamesOfAll conditions ⊆ interest.names →
      anyHolds (.outline (outline.restrict interest)) conditions =
        anyHolds (.outline outline) conditions
  | [], _ => rfl
  | _ :: _, h => by
    obtain ⟨hfirst, hrest⟩ := List.append_subset.1 h
    rw [anyHolds, anyHolds, holds_restrict hfirst, anyHolds_restrict hrest]

end

end ClassCondition

namespace Policy

theorem annotationNames_subset {names : NamePolicy} {rules : List StructuralRule}
    {rule : StructuralRule} (h : rule ∈ (ofRules names rules).structural) :
    rule.condition.annotationNames ⊆ (ofRules names rules).interest.names := by
  intro wanted hwanted
  refine Interest.mem_ofNames.2 ⟨wanted, List.mem_flatMap.2 ⟨rule, h, hwanted⟩, ?_⟩
  obtain ⟨written, -, rfl⟩ := List.mem_map.1 h
  rw [ClassCondition.annotationNames_toInternal] at hwanted
  obtain ⟨name, -, rfl⟩ := List.mem_map.1 hwanted
  exact (ClassName.toInternal_toInternal name).symm

theorem interest_perm {names : NamePolicy} {rules others : List StructuralRule}
    (h : rules.Perm others) :
    (ofRules names others).interest.names ⊆ (ofRules names rules).interest.names := by
  intro wanted hwanted
  obtain ⟨name, hname, rfl⟩ := Interest.mem_ofNames.1 hwanted
  exact Interest.mem_ofNames.2 ⟨name, ((h.map _).flatMap_right _).mem_iff.2 hname, rfl⟩

variable {policy : Policy} {interest : Interest}

theorem decideWith_restrict (h : ∀ rule ∈ policy.structural,
      rule.condition.annotationNames ⊆ interest.names) (byName : Decision) (outline : Outline) :
    policy.decideWith byName (.outline (outline.restrict interest)) =
      policy.decideWith byName (.outline outline) := by
  rw [decideWith_eq_ofRules, decideWith_eq_ofRules]
  exact Decision.ofRules_congr byName fun rule hrule => ClassCondition.holds_restrict (h rule hrule)

theorem evaluate_of_parseOutline {bytes : Bytes} {outline : Outline}
    (h : parseOutline bytes policy.interest = .ok outline) (name : Option String) :
    ∃ info, policy.evaluate name bytes =
      .ok (info, policy.decideWith (policy.names.decide (name.getD outline.header.name))
        (.outline outline)) := by
  obtain ⟨pool, header, middle, last, hread, houtline⟩ := parseOutline_eq_ok.1 h
  obtain rfl := Outline.read_header houtline
  cases hneeds : policy.needsOutline (policy.names.decide (name.getD outline.header.name)) with
  | true =>
    refine ⟨.outline outline, ?_⟩
    rw [evaluate, hread]
    simp only [bind, Except.bind, hneeds, houtline]
    rfl
  | false =>
    refine ⟨.header outline.header, ?_⟩
    rw [evaluate_of_parseHeader (parseHeader_eq_ok.2 ⟨pool, middle, hread⟩) hneeds]
    rw [decideWith_congr (a := .header outline.header) (b := .outline outline) rfl hneeds]

/-- An evaluation comes to the decision of all rules, in any order, on an outline read with at least
the annotations that they ask about. -/
theorem evaluate_eq_eager (names : NamePolicy) (rules : List StructuralRule)
    (name : Option String) (bytes : Bytes) (interest : Interest) (outline : Outline)
    (hinterest : (ofRules names rules).interest.names ⊆ interest.names)
    (houtline : parseOutline bytes interest = .ok outline) :
    let byName := names.decide (name.getD outline.header.name)
    let eager := Decision.ofRules byName (ofRules names rules).structural (.outline outline)
    (∃ info, (ofRules names rules).evaluate name bytes = .ok (info, eager)) ∧
      ∀ others, rules.Perm others →
        ∃ info, (ofRules names others).evaluate name bytes = .ok (info, eager) := by
  intro byName eager
  have hevaluate (others : List StructuralRule) (hothers : rules.Perm others) :
      ∃ info, (ofRules names others).evaluate name bytes = .ok (info, eager) := by
    have hown := parseOutline_restrict
      (List.Subset.trans (interest_perm hothers) hinterest) houtline
    obtain ⟨info, hinfo⟩ := evaluate_of_parseOutline hown name
    refine ⟨info, hinfo.trans ?_⟩
    rw [decideWith_restrict fun rule => annotationNames_subset, decideWith_eq_ofRules]
    exact congrArg (fun decision => Except.ok (info, decision))
      (Decision.ofRules_perm (hothers.map _) byName (.outline outline)).symm
  exact ⟨hevaluate rules (.refl rules), hevaluate⟩

def annotatedModule : Bytes :=
  [0xCA, 0xFE, 0xBA, 0xBE, 0, 0, 0, 52, 0, 5, 1, 0, 1, 0x41, 7, 0, 1, 1, 0, 3, 0x4C, 0x42, 0x3B,
    1, 0, 25] ++ asciiBytes visibleAnnotations ++
  [0x80, 0, 0, 2, 0, 0, 0, 0, 0, 0, 0, 0, 0, 1, 0, 4, 0, 0, 0, 6, 0, 1, 0, 3, 0, 0]

def lackingRules : List StructuralRule :=
  [⟨.included, .not (.annotatedWith ["C"])⟩, ⟨.excluded, .not (.annotatedWith ["B"])⟩]

theorem evaluate_eq_eager_lacking :
    ∃ info other,
      (ofRules (.ofPatterns [] .excludeVeto) lackingRules).evaluate none annotatedModule =
        .ok (info, .included) ∧
      (ofRules (.ofPatterns [] .excludeVeto) lackingRules.reverse).evaluate none annotatedModule =
        .ok (other, .included) := by
  have hinterest : (ofRules (.ofPatterns [] .excludeVeto) lackingRules).interest.names ⊆
      ["C", "B", "D"] := by decide +kernel
  obtain ⟨⟨info, hinfo⟩, hothers⟩ := evaluate_eq_eager (.ofPatterns [] .excludeVeto) lackingRules
    none annotatedModule ⟨["C", "B", "D"]⟩ _ hinterest rfl
  obtain ⟨other, hother⟩ := hothers lackingRules.reverse (List.reverse_perm lackingRules).symm
  exact ⟨info, other, hinfo, hother⟩

end Policy

end ClassSieve
