import ClassSieve.Proofs.ClassFile.Parsers
import ClassSieve.Rules.Policy

/-!
# Decisions of a policy

A decision asks whether some excluding rule holds and, failing that, whether some including one
does; `Decision.ofRules` says so without an order among the rules. Conditions that need no outline
see the header alone.
-/
namespace ClassSieve
open ClassFile

namespace ClassCondition
variable {a b : ClassInfo}

mutual

theorem holds_congr (hheader : a.getHeader = b.getHeader) :
    ∀ {condition : ClassCondition}, condition.needsOutline = false →
      condition.holds a = condition.holds b
  | .extends _, _ => by simp only [holds, hheader]
  | .implements _, _ => by simp only [holds, hheader]
  | .access _, _ => by simp only [holds, hheader]
  | .declaresField _, h => by simp [needsOutline] at h
  | .declaresMethod _, h => by simp [needsOutline] at h
  | .annotatedWith _, h => by simp [needsOutline] at h
  | .allOf conditions, h => by
    rw [needsOutline] at h
    rw [holds, holds, allHold_congr hheader h]
  | .anyOf conditions, h => by
    rw [needsOutline] at h
    rw [holds, holds, anyHolds_congr hheader h]
  | .not condition, h => by
    rw [needsOutline] at h
    rw [holds, holds, holds_congr hheader h]

theorem allHold_congr (hheader : a.getHeader = b.getHeader) :
    ∀ {conditions : List ClassCondition}, anyNeedsOutline conditions = false →
      allHold a conditions = allHold b conditions
  | [], _ => rfl
  | _ :: _, h => by
    rw [anyNeedsOutline, Bool.or_eq_false_iff] at h
    rw [allHold, allHold, holds_congr hheader h.1, allHold_congr hheader h.2]

theorem anyHolds_congr (hheader : a.getHeader = b.getHeader) :
    ∀ {conditions : List ClassCondition}, anyNeedsOutline conditions = false →
      anyHolds a conditions = anyHolds b conditions
  | [], _ => rfl
  | _ :: _, h => by
    rw [anyNeedsOutline, Bool.or_eq_false_iff] at h
    rw [anyHolds, anyHolds, holds_congr hheader h.1, anyHolds_congr hheader h.2]

end

end ClassCondition

def StructuralRule.someHolds (verdict : Verdict) (info : ClassInfo) (rules : List StructuralRule) :
    Bool :=
  rules.any fun rule => rule.verdict = verdict && rule.condition.holds info

/-- The decision on a class whose name is decided as `byName`: exclusion by the name or by any rule
prevails, then inclusion by the name or by any rule. -/
def Decision.ofRules (byName : Decision) (rules : List StructuralRule) (info : ClassInfo) :
    Decision :=
  if byName = .excluded || StructuralRule.someHolds .excluded info rules then .excluded
  else if byName = .included || StructuralRule.someHolds .included info rules then .included
  else .noMatch

theorem Decision.ofRules_congr {a b : ClassInfo} {rules : List StructuralRule} (byName : Decision)
    (h : ∀ rule ∈ rules, rule.condition.holds a = rule.condition.holds b) :
    ofRules byName rules a = ofRules byName rules b := by
  have hholds (verdict : Verdict) : StructuralRule.someHolds verdict a rules =
      StructuralRule.someHolds verdict b rules := by
    rw [Bool.eq_iff_iff, StructuralRule.someHolds, StructuralRule.someHolds, List.any_eq_true,
      List.any_eq_true]
    refine exists_congr fun rule => and_congr_right fun hrule => ?_
    rw [h rule hrule]
  rw [ofRules, ofRules, hholds, hholds]

theorem Decision.ofRules_perm {rules others : List StructuralRule} (h : rules.Perm others)
    (byName : Decision) (info : ClassInfo) :
    ofRules byName rules info = ofRules byName others info := by
  have hholds (verdict : Verdict) : StructuralRule.someHolds verdict info rules =
      StructuralRule.someHolds verdict info others := h.any_eq
  rw [ofRules, ofRules, hholds, hholds]

namespace Policy

theorem decideStructural_eq (info : ClassInfo) (included : Bool) (rules : List StructuralRule) :
    decideStructural info included rules =
      if StructuralRule.someHolds .excluded info rules then .excluded
      else if included || StructuralRule.someHolds .included info rules then .included
      else .noMatch := by
  induction rules generalizing included with
  | nil => simp [decideStructural, StructuralRule.someHolds]
  | cons rule rules ih =>
    obtain ⟨verdict, condition⟩ := rule
    simp only [StructuralRule.someHolds] at ih
    simp only [decideStructural, StructuralRule.someHolds, List.any_cons]
    by_cases hholds : condition.holds info = true
    · cases verdict with
      | included => simp [hholds, ih]
      | excluded => simp [hholds]
    · simp [hholds, ih]

theorem decideWith_eq_ofRules (policy : Policy) (byName : Decision) (info : ClassInfo) :
    policy.decideWith byName info = Decision.ofRules byName policy.structural info := by
  cases byName <;> simp [decideWith, Decision.ofRules, decideStructural_eq]

theorem holds_congr_of_requiresOutline {a b : ClassInfo} (hheader : a.getHeader = b.getHeader)
    {policy : Policy} (h : policy.requiresOutline = false) :
    ∀ rule ∈ policy.structural, rule.condition.holds a = rule.condition.holds b := by
  intro rule hrule
  rw [requiresOutline, List.any_eq_false] at h
  exact ClassCondition.holds_congr hheader (Bool.eq_false_iff.2 (h rule hrule))

theorem decideWith_congr {a b : ClassInfo} (hheader : a.getHeader = b.getHeader)
    {policy : Policy} {byName : Decision} (h : policy.needsOutline byName = false) :
    policy.decideWith byName a = policy.decideWith byName b := by
  rw [needsOutline, Bool.and_eq_false_iff, decide_eq_false_iff_not,
    Decidable.not_not] at h
  rcases h with hrules | rfl
  · rw [decideWith_eq_ofRules, decideWith_eq_ofRules]
    exact Decision.ofRules_congr byName (holds_congr_of_requiresOutline hheader hrules)
  · rfl

theorem parseHeader_of_evaluate {policy : Policy} {name : Option String} {bytes : Bytes}
    {info : ClassInfo} {decision : Decision}
    (h : policy.evaluate name bytes = .ok (info, decision)) :
    parseHeader bytes = .ok info.getHeader := by
  obtain ⟨⟨⟨pool, header⟩, cursor⟩, hread, h⟩ := except_bind_eq_ok.1 h
  rw [parseHeader_eq_ok]
  refine ⟨pool, cursor, ?_⟩
  dsimp only at h
  split at h
  · obtain ⟨⟨outline, last⟩, houtline, h⟩ := except_bind_eq_ok.1 h
    cases h
    rw [ClassInfo.getHeader, Outline.read_header houtline, hread]
  · cases h
    exact hread

theorem evaluate_of_parseHeader {policy : Policy} {name : Option String} {bytes : Bytes}
    {header : Header} (hheader : parseHeader bytes = .ok header)
    (hneeds : policy.needsOutline (policy.names.decide (name.getD header.name)) = false) :
    policy.evaluate name bytes =
      .ok (.header header,
        policy.decideWith (policy.names.decide (name.getD header.name)) (.header header)) := by
  obtain ⟨pool, cursor, hread⟩ := parseHeader_eq_ok.1 hheader
  rw [evaluate, hread]
  simp only [bind, Except.bind, hneeds]
  rfl

end Policy

end ClassSieve
