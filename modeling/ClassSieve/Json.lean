/-!
# JSON values

Objects keep their members in order, repeated keys included. A number is kept as a natural number
where it is written as one below `2^64`, and by its text otherwise. `unreadable` stands for what is
well-formed text but denotes no value: a string with half a surrogate pair, a number beyond every
float, and what nests too deeply. It does no harm where nobody looks at it.
-/
namespace ClassSieve

inductive Json where
  | null
  | bool (value : Bool)
  | natural (value : Nat)
  | otherNumber (text : String)
  | string (text : String)
  | array (items : List Json)
  | object (members : List (String × Json))
  | unreadable

namespace Json

def string? : Json → Option String
  | string text => some text
  | _ => none

def natural? : Json → Option Nat
  | natural value => some value
  | _ => none

def listOf? {α : Type} (read : Json → Option α) : Json → Option (List α)
  | array items => items.mapM read
  | _ => none

/-- A name that stands alone, which may also be written as the one key of an object. -/
def unitName? : Json → Option String
  | string name => some name
  | object [(name, null)] => some name
  | _ => none

/-- A name that stands alone in a record that is told by its tag; the one key of an object may
also stand before an empty object there. -/
def innerUnitName? : Json → Option String
  | object [(name, object [])] => some name
  | value => value.unitName?

mutual

def isReadable : Json → Bool
  | array items => itemsReadable items
  | object members => membersReadable members
  | unreadable => false
  | _ => true

def itemsReadable : List Json → Bool
  | [] => true
  | item :: rest => item.isReadable && itemsReadable rest

def membersReadable : List (String × Json) → Bool
  | [] => true
  | (_, value) :: rest => value.isReadable && membersReadable rest

end

mutual

def depth : Json → Nat
  | array items => depthOfItems items + 1
  | object members => depthOfMembers members + 1
  | _ => 0

def depthOfItems : List Json → Nat
  | [] => 0
  | item :: rest => max item.depth (depthOfItems rest)

def depthOfMembers : List (String × Json) → Nat
  | [] => 0
  | (_, value) :: rest => max value.depth (depthOfMembers rest)

end

/-- The value of a key that occurs at most once; a repeated key has none. -/
def unique? (members : List (String × Json)) (key : String) : Option (Option Json) :=
  match members.filter fun member => member.1 = key with
  | [] => some none
  | [member] => some (some member.2)
  | _ => none

/-- The values of a record with the fields `keys`: of an object by key, where other keys do not
matter, and of an array by position. -/
def record? (keys : List String) : Json → Option (List (Option Json))
  | object members => keys.mapM (unique? members)
  | array items =>
    if items.length ≤ keys.length then
      some (items.map some ++ List.replicate (keys.length - items.length) none)
    else none
  | _ => none

def tagged? (tag : String) (read : Json → Option String) : Json → Option (String × Json)
  | object members => do
    let kind ← (← unique? members tag).bind read
    return (kind, object (members.filter fun member => member.1 ≠ tag))
  | array (first :: rest) => (read first).map fun kind => (kind, array rest)
  | _ => none

def defaulted {α : Type} (absent : α) (read : Json → Option α) : Option Json → Option α
  | none => some absent
  | some value => read value

def nullable {α : Type} (read : Json → Option α) : Json → Option (Option α)
  | null => some none
  | value => (read value).map some

def optionalField {α : Type} (read : Json → Option α) : Option Json → Option (Option α) :=
  defaulted none (nullable read)

def ofOption {α : Type} (write : α → Json) : Option α → Json
  | none => null
  | some value => write value

def ofStrings (texts : List String) : Json := array (texts.map string)

end Json

end ClassSieve
