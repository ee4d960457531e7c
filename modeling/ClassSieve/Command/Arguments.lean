import ClassSieve.Cache
import ClassSieve.Text.Cut

/-!
# Commands and their arguments

The program can be asked to print the header or the outline of a class file, to decide about class
names, and to scan classes.

Arguments are read from left to right, and the first that makes no sense, or asks for help, ends
the reading. Options may stand anywhere behind the command; the rules file may also be named in
front of it, and the one named behind it counts. A value follows its option as the next argument,
which starts with no dash unless it is a single one, or in the same argument: behind an equals
sign, or right behind the letter of a short option. An argument `--` makes all others plain.
-/
namespace ClassSieve

inductive ReportFormat where
  | json
  | text
  deriving DecidableEq, Repr

structure ScanRequest where
  path : String
  format : ReportFormat
  includedOnly : Bool
  output : Option String
  capacity : Nat
  deriving DecidableEq, Repr

inductive Command where
  | header (file : String)
  | outline (file : String) (annotations : List String)
  | decide (names : List String)
  | scan (request : ScanRequest)
  deriving DecidableEq, Repr

structure Invocation where
  rules : Option String
  command : Command
  deriving DecidableEq, Repr

namespace Command
open Text

inductive CommandName where
  | header
  | outline
  | decide
  | scan
  deriving DecidableEq, Repr

namespace CommandName

def all : List CommandName := [header, outline, decide, scan]

def text : CommandName → String
  | header => "header"
  | outline => "outline"
  | decide => "decide"
  | scan => "scan"

def ofText? (word : String) : Option CommandName := all.find? fun name => name.text = word

end CommandName

def helpCommand : String := "help"

inductive OptionName where
  | rules
  | annotationName
  | format
  | includeOnly
  | output
  | cacheCapacity
  | help
  deriving DecidableEq, Repr

namespace OptionName

def all : List OptionName :=
  [annotationName, format, includeOnly, output, cacheCapacity, rules, help]

def long : OptionName → String
  | rules => "rules"
  | annotationName => "annotation"
  | format => "format"
  | includeOnly => "include-only"
  | output => "output"
  | cacheCapacity => "cache-capacity"
  | help => "help"

def short? : OptionName → Option Char
  | annotationName => some 'a'
  | format => some 'f'
  | output => some 'o'
  | help => some 'h'
  | rules | includeOnly | cacheCapacity => none

def takesValue : OptionName → Bool
  | includeOnly | help => false
  | rules | annotationName | format | output | cacheCapacity => true

def belongsTo (command : Option CommandName) : OptionName → Bool
  | rules | help => true
  | annotationName => command = some .outline
  | format | includeOnly | output | cacheCapacity => command = some .scan

def ofCommand (command : Option CommandName) : List OptionName := all.filter (belongsTo command)

end OptionName

inductive Misuse where
  | noCommand
  | unknownCommand (word : String)
  | unexpected (word : String)
  | missingValue (option : OptionName)
  | unwantedValue (option : OptionName)
  | repeated (option : OptionName)
  | invalidValue (option : OptionName) (value : String)
  | emptyPath
  | missingArgument (command : CommandName)
  deriving DecidableEq, Repr

inductive Halt where
  | help (command : Option CommandName)
  | misuse (cause : Misuse)
  deriving DecidableEq, Repr

/-! ## Words -/

inductive Word where
  | endOfOptions
  | plain (text : String)
  | long (name : String) (value : Option String)
  | short (letter : Char) (behind : List Char)
  deriving DecidableEq, Repr

def Word.ofText (text : String) : Word :=
  match text.toList with
  | ['-', '-'] => .endOfOptions
  | '-' :: '-' :: cs =>
    match cutFirst (· = '=') cs with
    | some (name, value) => .long (String.ofList name) (some (String.ofList value))
    | none => .long (String.ofList cs) none
  | '-' :: letter :: behind => .short letter behind
  | _ => .plain text

def Word.isValue (text : String) : Bool :=
  match Word.ofText text with
  | .plain _ => true
  | _ => false

def attachedValue? : List Char → Option String
  | [] => none
  | '=' :: value => some (String.ofList value)
  | value => some (String.ofList value)

/-! ## Collecting -/

structure Collected where
  outerRules : Option String
  rules : Option String
  plain : List String
  annotations : List String
  format : Option ReportFormat
  includedOnly : Bool
  output : Option String
  capacity : Option Nat

namespace Collected

def initial : Collected := ⟨none, none, [], [], none, false, none, none⟩

def enter (c : Collected) : Collected := { initial with outerRules := c.rules }

def checkPath (path : String) : Except Halt String :=
  if path = "" then .error (.misuse .emptyPath) else .ok path

def once {α : Type} (option : OptionName) (held : Option α) (value : α) : Except Halt (Option α) :=
  if held.isSome then .error (.misuse (.repeated option)) else .ok (some value)

def readFormat? (value : String) : Option ReportFormat :=
  match value with
  | "json" => some .json
  | "text" => some .text
  | _ => none

def greatestNumber : Nat := 0xFFFFFFFFFFFFFFFF

def check {α : Type} (option : OptionName) (read : String → Option α) (value : String) :
    Except Halt α :=
  match read value with
  | some found => .ok found
  | none => .error (.misuse (.invalidValue option value))

def addFlag (c : Collected) (command : Option CommandName) (option : OptionName) :
    Except Halt Collected :=
  match option with
  | .help => .error (.help command)
  | .includeOnly =>
    if c.includedOnly then .error (.misuse (.repeated option))
    else .ok { c with includedOnly := true }
  | _ => .error (.misuse (.missingValue option))

def addValue (c : Collected) (option : OptionName) (value : String) : Except Halt Collected := do
  match option with
  | .annotationName => return { c with annotations := c.annotations ++ [value] }
  | .rules => return { c with rules := ← once option c.rules (← checkPath value) }
  | .output => return { c with output := ← once option c.output (← checkPath value) }
  | .format =>
    return { c with format := ← once option c.format (← check option readFormat? value) }
  | .cacheCapacity =>
    let read (text : String) := numeral? greatestNumber text.toList
    return { c with capacity := ← once option c.capacity (← check option read value) }
  | .includeOnly | .help => throw (.misuse (.unwantedValue option))

def addPlain (c : Collected) (command : CommandName) (word : String) : Except Halt Collected := do
  match command with
  | .decide => return { c with plain := c.plain ++ [word] }
  | .header | .outline | .scan =>
    if !c.plain.isEmpty then throw (.misuse (.unexpected word))
    return { c with plain := [← checkPath word] }

def finish (c : Collected) (command : CommandName) : Except Halt Invocation :=
  let missing := .error (.misuse (.missingArgument command))
  let ask (asked : Command) : Except Halt Invocation := .ok ⟨c.rules.or c.outerRules, asked⟩
  match command, c.plain with
  | _, [] => missing
  | .decide, names => ask (.decide names)
  | .header, file :: _ => ask (.header file)
  | .outline, file :: _ => ask (.outline file c.annotations)
  | .scan, path :: _ => ask (.scan {
      path
      format := c.format.getD .json
      includedOnly := c.includedOnly
      output := c.output
      capacity := c.capacity.getD Cache.defaultCapacity })

end Collected

/-! ## Reading -/

structure GivenOption where
  name : OptionName
  attached : Option String

def findOption (command : Option CommandName) (text : String) (p : OptionName → Bool) :
    Except Halt OptionName :=
  match (OptionName.ofCommand command).find? p with
  | some option => .ok option
  | none => .error (.misuse (.unexpected text))

def longOption (command : Option CommandName) (text name : String) (value : Option String) :
    Except Halt GivenOption := do
  let option ← findOption command text fun option => option.long = name
  if value.isSome && !option.takesValue then throw (.misuse (.unwantedValue option))
  return ⟨option, value⟩

/-- What stands behind the letter of an option without a value is not looked at. -/
def shortOption (command : Option CommandName) (text : String) (letter : Char)
    (behind : List Char) : Except Halt GivenOption := do
  let option ← findOption command text fun option => option.short? = some letter
  return ⟨option, if option.takesValue then attachedValue? behind else none⟩

def takeOption (c : Collected) (command : Option CommandName) (given : GivenOption)
    (rest : List String) : Except Halt (Collected × Bool) := do
  if !given.name.takesValue then return (← c.addFlag command given.name, false)
  match given.attached, rest with
  | some value, _ => return (← c.addValue given.name value, false)
  | none, value :: _ =>
    if Word.isValue value then return (← c.addValue given.name value, true)
    else throw (.misuse (.missingValue given.name))
  | none, [] => throw (.misuse (.missingValue given.name))

/-- Reads the arguments behind a command; the first is passed over when `skip` says so. -/
def readBehind (command : CommandName) (c : Collected) (skip : Bool) :
    List String → Except Halt Collected
  | [] => .ok c
  | text :: rest => do
    if skip then readBehind command c false rest
    else
      let behind := some command
      match Word.ofText text with
      | .endOfOptions => rest.foldlM (fun c word => c.addPlain command word) c
      | .plain word => readBehind command (← c.addPlain command word) false rest
      | .long name value =>
        let (c, skip) ← takeOption c behind (← longOption behind text name value) rest
        readBehind command c skip rest
      | .short letter tail =>
        let (c, skip) ← takeOption c behind (← shortOption behind text letter tail) rest
        readBehind command c skip rest

def helpTopic : List String → Halt
  | [] => .help none
  | [word] =>
    match CommandName.ofText? word with
    | some command => .help (some command)
    | none => if word = helpCommand then .help none else .misuse (.unknownCommand word)
  | word :: other :: _ =>
    if (CommandName.ofText? word).isSome || word = helpCommand then .misuse (.unknownCommand other)
    else .misuse (.unknownCommand word)

def readFrom (c : Collected) (skip : Bool) : List String → Except Halt Invocation
  | [] => .error (.misuse .noCommand)
  | text :: rest => do
    if skip then readFrom c false rest
    else
      match Word.ofText text with
      | .endOfOptions => throw (.misuse .noCommand)
      | .plain word =>
        match CommandName.ofText? word with
        | some command => (← readBehind command c.enter false rest).finish command
        | none =>
          if word = helpCommand then throw (helpTopic rest)
          else throw (.misuse (.unknownCommand word))
      | .long name value =>
        let (c, skip) ← takeOption c none (← longOption none text name value) rest
        readFrom c skip rest
      | .short letter tail =>
        let (c, skip) ← takeOption c none (← shortOption none text letter tail) rest
        readFrom c skip rest

end Command

def Invocation.ofArguments (arguments : List String) : Except Command.Halt Invocation :=
  Command.readFrom .initial false arguments

end ClassSieve
