import ClassSieve.Pattern.Trie

/-!
# Deciding by name

A policy answers for a class name whether its patterns include it, exclude it or do not speak
about it. When they disagree, either any excluding pattern prevails or the most specific one does.
-/
namespace ClassSieve

inductive Decision where
  | included
  | excluded
  | noMatch
  deriving DecidableEq, Repr

def Decision.name : Decision → String
  | included => "include"
  | excluded => "exclude"
  | noMatch => "no_match"

def Verdict.decision : Verdict → Decision
  | included => .included
  | excluded => .excluded

inductive Precedence where
  | excludeVeto
  | mostSpecific
  deriving DecidableEq, Repr

structure NamePolicy where
  trie : PatternTrie
  precedence : Precedence
  deriving Repr

namespace NamePolicy

def ofPatterns (patterns : List Pattern) (precedence : Precedence) : NamePolicy :=
  ⟨PatternTrie.ofPatterns patterns, precedence⟩

def vetoed (found : List Match) : Decision :=
  if found.any fun m => m.verdict = .excluded then .excluded
  else if found.isEmpty then .noMatch
  else .included

def decide (policy : NamePolicy) (name : String) : Decision :=
  match policy.precedence with
  | .excludeVeto => vetoed (policy.trie.lookup name)
  | .mostSpecific =>
    match policy.trie.best? name with
    | some m => m.verdict.decision
    | none => .noMatch

end NamePolicy

end ClassSieve
