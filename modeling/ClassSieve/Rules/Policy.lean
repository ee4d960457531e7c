import ClassSieve.Condition
import ClassSieve.Pattern.NamePolicy

/-!
# Policies

A policy decides about a class by its name and by structural rules. An excluding name or rule
prevails; else an including one does. `evaluate` parses no more of a class file than the policy
needs: the outline only where some rule asks for it and the name does not already exclude the
class, and only the annotations that rules ask about.

A rule sheet has the rules as they are written down, before their patterns are parsed. `compile`
makes it a policy and reports the first pattern that is none.
-/
namespace ClassSieve
open ClassFile

structure StructuralRule where
  verdict : Verdict
  condition : ClassCondition

structure Policy where
  names : NamePolicy
  /-- The structural rules, with class names in internal form. -/
  structural : List StructuralRule

namespace Policy

def ofRules (names : NamePolicy) (structural : List StructuralRule) : Policy :=
  ⟨names, structural.map fun rule => { rule with condition := rule.condition.toInternal }⟩

def interest (policy : Policy) : Interest :=
  Interest.ofNames (policy.structural.flatMap fun rule => rule.condition.annotationNames)

def requiresOutline (policy : Policy) : Bool :=
  policy.structural.any fun rule => rule.condition.needsOutline

def needsOutline (policy : Policy) (byName : Decision) : Bool :=
  policy.requiresOutline && byName ≠ .excluded

def decideStructural (info : ClassInfo) (included : Bool) : List StructuralRule → Decision
  | [] => if included then .included else .noMatch
  | rule :: rest =>
    if rule.condition.holds info then
      match rule.verdict with
      | .excluded => .excluded
      | .included => decideStructural info true rest
    else decideStructural info included rest

def decideWith (policy : Policy) (byName : Decision) (info : ClassInfo) : Decision :=
  match byName with
  | .excluded => .excluded
  | .included => decideStructural info true policy.structural
  | .noMatch => decideStructural info false policy.structural

def decide (policy : Policy) (name : String) (info : ClassInfo) : Decision :=
  policy.decideWith (policy.names.decide name) info

/-- Reads of a class file what the policy needs and decides under `name`, or under the name in
the file when there is none. -/
def evaluate (policy : Policy) (name : Option String) (bytes : Bytes) :
    Except Fault (ClassInfo × Decision) := do
  let ((pool, header), cursor) ← Header.read (Cursor.ofBytes bytes)
  let byName := policy.names.decide (name.getD header.name)
  if policy.needsOutline byName then
    let (outline, _) ← Outline.read pool header policy.interest cursor
    return (.outline outline, policy.decideWith byName (.outline outline))
  else return (.header header, policy.decideWith byName (.header header))

end Policy

structure Edition where
  generation : Nat
  policy : Policy

namespace Edition

def first (policy : Policy) : Edition := ⟨1, policy⟩

def replace (edition : Edition) (policy : Policy) : Edition := ⟨edition.generation + 1, policy⟩

end Edition

structure NameRule where
  pattern : String
  verdict : Verdict
  deriving DecidableEq, Repr

structure RuleSheet where
  precedence : Precedence
  rules : List NameRule
  structural : List StructuralRule

namespace RuleSheet

def empty : RuleSheet := ⟨.excludeVeto, [], []⟩

def patterns (sheet : RuleSheet) : Except PatternError (List Pattern) :=
  sheet.rules.mapM fun rule => Pattern.parse rule.pattern rule.verdict

def compile (sheet : RuleSheet) : Except PatternError Policy := do
  let patterns ← sheet.patterns
  return Policy.ofRules (NamePolicy.ofPatterns patterns sheet.precedence) sheet.structural

end RuleSheet

end ClassSieve
