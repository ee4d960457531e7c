import ClassSieve.Json

/-!
# Printing JSON

The readable form: one item or member a line, indented by two blanks a level, and an empty array or
object on one line. In strings only quotes, backslashes and control characters are escaped.
-/
namespace ClassSieve.Json

def shortEscapes : List (Char × Char) :=
  [('"', '"'), ('\\', '\\'), ('\x08', 'b'), ('\x0c', 'f'), ('\n', 'n'), ('\r', 'r'), ('\t', 't')]

def escapeChar (c : Char) : List Char :=
  match shortEscapes.lookup c with
  | some letter => ['\\', letter]
  | none =>
    if c.toNat < 0x20 then
      ['\\', 'u', '0', '0', Nat.digitChar (c.toNat / 16), Nat.digitChar (c.toNat % 16)]
    else [c]

def quote (text : String) : String :=
  String.ofList ('"' :: text.toList.flatMap escapeChar ++ ['"'])

def indentation (level : Nat) : String := String.ofList (List.replicate (2 * level) ' ')

def enclose (level : Nat) (opening closing : String) (lines : List String) : String :=
  if lines.isEmpty then opening ++ closing
  else
    let inner := "\n" ++ indentation (level + 1)
    opening ++ inner ++ String.intercalate ("," ++ inner) lines ++ "\n" ++ indentation level
      ++ closing

mutual

def renderAt (level : Nat) : Json → String
  | null => "null"
  | bool true => "true"
  | bool false => "false"
  | natural value => toString value
  | otherNumber text => text
  | string text => quote text
  | array items => enclose level "[" "]" (renderItems (level + 1) items)
  | object members => enclose level "\x7b" "\x7d" (renderMembers (level + 1) members)
  | unreadable => "null"

def renderItems (level : Nat) : List Json → List String
  | [] => []
  | item :: rest => renderAt level item :: renderItems level rest

def renderMembers (level : Nat) : List (String × Json) → List String
  | [] => []
  | (key, value) :: rest =>
    (quote key ++ ": " ++ renderAt level value) :: renderMembers level rest

end

def render (value : Json) : String := renderAt 0 value

end ClassSieve.Json
