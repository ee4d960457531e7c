import ClassSieve.Rules.Policy
import ClassSieve.Text.Cut

/-!
# Rules line by line

A sheet with name rules only can be written as lines. A line is `+pattern` or `include pattern`,
`-pattern` or `exclude pattern`, or `precedence` with one of its two values. A `#` starts a
comment, blank lines are skipped, and the last precedence counts.
-/
namespace ClassSieve
open Text

inductive Directive where
  | rule (rule : NameRule)
  | precedence (value : Precedence)
  deriving DecidableEq, Repr

inductive LineFault where
  | unknownPrecedence (text : String)
  | unknownDirective (keyword : String)
  | unreadable (line : String)
  deriving DecidableEq, Repr

structure LineError where
  line : Nat
  fault : LineFault
  deriving DecidableEq, Repr

def LineFault.message : LineFault → String
  | unknownPrecedence text => "unknown precedence \x60" ++ text ++ "\x60"
  | unknownDirective keyword => "unknown directive \x60" ++ keyword ++ "\x60"
  | unreadable line => "cannot read rule \x60" ++ line ++ "\x60"

def LineError.message (error : LineError) : String :=
  "line " ++ toString error.line ++ ": " ++ error.fault.message

namespace Precedence

def name : Precedence → String
  | excludeVeto => "exclude-veto"
  | mostSpecific => "most-specific"

def ofName? (text : String) : Option Precedence :=
  [excludeVeto, mostSpecific].find? fun precedence => precedence.name = text

end Precedence

namespace Directive

def content (line : List Char) : List Char := trimChars (line.takeWhile (· ≠ '#'))

def ruleOf (verdict : Verdict) (pattern : List Char) : Directive :=
  .rule ⟨String.ofList (trimChars pattern), verdict⟩

def ofKeyword (keyword : String) (value : List Char) : Except LineFault Directive :=
  match keyword with
  | "include" => .ok (ruleOf .included value)
  | "exclude" => .ok (ruleOf .excluded value)
  | "precedence" =>
    let text := String.ofList (trimChars value)
    match Precedence.ofName? text with
    | some found => .ok (.precedence found)
    | none => .error (.unknownPrecedence text)
  | other => .error (.unknownDirective other)

def ofContent? : List Char → Except LineFault (Option Directive)
  | [] => .ok none
  | '+' :: pattern => .ok (some (ruleOf .included pattern))
  | '-' :: pattern => .ok (some (ruleOf .excluded pattern))
  | cs =>
    match cutFirst isBlank cs with
    | some (keyword, value) => (ofKeyword (String.ofList keyword) value).map some
    | none => .error (.unreadable (String.ofList cs))

def ofLines (number : Nat) : List (List Char) → Except LineError (List Directive)
  | [] => .ok []
  | line :: rest =>
    match ofContent? (content line) with
    | .error fault => .error ⟨number, fault⟩
    | .ok directive => (ofLines (number + 1) rest).map (directive.toList ++ ·)

end Directive

namespace RuleSheet

def apply (sheet : RuleSheet) : Directive → RuleSheet
  | .rule rule => { sheet with rules := sheet.rules ++ [rule] }
  | .precedence value => { sheet with precedence := value }

def ofDirectives (directives : List Directive) : RuleSheet := directives.foldl apply empty

def ofLines (text : String) : Except LineError RuleSheet :=
  (Directive.ofLines 1 (text.toList.splitOn '\n')).map ofDirectives

end RuleSheet

end ClassSieve
