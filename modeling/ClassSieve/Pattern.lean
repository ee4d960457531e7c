import ClassSieve.ClassName
import ClassSieve.Text.Cut

/-!
# Name patterns

A pattern is a class name, or a literal with one `*` at its end or its beginning for any name that
starts or ends with the literal. Dots and slashes are the same separator. A longer literal is more
specific, and a whole name is more specific than a wildcard with the same literal.
-/
namespace ClassSieve

inductive Verdict where
  | included
  | excluded
  deriving DecidableEq, Repr

def Verdict.rank : Verdict → Nat
  | included => 0
  | excluded => 1

inductive PatternKind where
  | exact
  | leading
  | trailing
  deriving DecidableEq, Repr

def PatternKind.rank : PatternKind → Nat
  | leading => 0
  | trailing => 1
  | exact => 2

structure Pattern where
  kind : PatternKind
  literal : String
  verdict : Verdict
  deriving DecidableEq, Repr

inductive PatternError where
  | empty
  | misplacedWildcard (text : String)
  deriving DecidableEq, Repr

def PatternError.message : PatternError → String
  | empty => "empty class-name pattern"
  | misplacedWildcard text => "wildcard may only lead or trail a pattern: " ++ text

namespace Pattern
open Text

def cutWildcard (cs : List Char) : PatternKind × List Char :=
  if cs.getLast? = some '*' then (.leading, cs.dropLast)
  else
    match cs with
    | '*' :: rest => (.trailing, rest)
    | _ => (.exact, cs)

def parse (text : String) (verdict : Verdict) : Except PatternError Pattern :=
  let cs := trimChars text.toList
  if cs.isEmpty then .error .empty
  else
    let (kind, literal) := cutWildcard cs
    if '*' ∈ literal then .error (.misplacedWildcard (String.ofList cs))
    else .ok { kind, literal := ClassName.toInternal (String.ofList literal), verdict }

def render (pattern : Pattern) : String :=
  match pattern.kind with
  | .exact => pattern.literal
  | .leading => pattern.literal ++ "*"
  | .trailing => "*" ++ pattern.literal

/-- Lengths from here on are equally specific. -/
def longestLength : Nat := 0x7FFFFFFF

def specificity (pattern : Pattern) : Nat :=
  2 * min pattern.literal.utf8ByteSize longestLength + if pattern.kind = .exact then 1 else 0

end Pattern

structure Match where
  specificity : Nat
  verdict : Verdict
  kind : PatternKind
  deriving DecidableEq, Repr

namespace Match

def ofPattern (pattern : Pattern) : Match := ⟨pattern.specificity, pattern.verdict, pattern.kind⟩

/-- Orders matches by specificity, then verdict, then kind. -/
def rank (m : Match) : Nat := 6 * m.specificity + 3 * m.verdict.rank + m.kind.rank

def weight (m : Match) : Nat := 2 * m.specificity + m.verdict.rank

theorem rank_injective {a b : Match} (h : a.rank = b.rank) : a = b := by
  obtain ⟨s, v, k⟩ := a
  obtain ⟨s', v', k'⟩ := b
  cases v <;> cases v' <;> cases k <;> cases k' <;>
    simp [rank, Verdict.rank, PatternKind.rank] at h ⊢ <;> omega

end Match

end ClassSieve
