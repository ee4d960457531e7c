import ClassSieve.Command.Arguments

/-!
# Help

The texts that say how the program is called, and what is wrong with a call.
-/
namespace ClassSieve.Command

def programName : String := "class-match"

def purpose : String :=
  "Parse Java class files and decide which ones match the instrumentation rules"

namespace CommandName

def purpose : CommandName → String
  | header => "Print the header of a class file"
  | outline => "Print fields, methods and the requested annotations of a class file"
  | decide => "Print the name-rule decision for each class name"
  | scan => "Decide every class under a \x60.class\x60 file, a jar or a directory"

def argument : CommandName → String
  | header | outline => "<FILE>"
  | decide => "<NAMES>..."
  | scan => "<PATH>"

end CommandName

namespace OptionName

def purpose : OptionName → String
  | rules => "Rules file (\x60.json\x60 or line format)"
  | annotationName => "An annotation to report"
  | format => "The form of the report"
  | includeOnly => "Report included classes only"
  | output => "Write the report to a file"
  | cacheCapacity => "Most classes the cache holds before dropping the least recently used"
  | help => "Print help"

def valueName : OptionName → String
  | rules | output => " <FILE>"
  | annotationName => " <TYPE>"
  | format => " <json|text>"
  | cacheCapacity => " <N>"
  | includeOnly | help => ""

def usage (option : OptionName) : String :=
  let short := match option.short? with
    | some letter => String.ofList ['-', letter, ',', ' ']
    | none => "    "
  short ++ "--" ++ option.long ++ option.valueName

end OptionName

def alignedLines (rows : List (String × String)) : String :=
  let width := (rows.map fun row => row.1.length).foldl max 0
  String.join (rows.map fun row =>
    "  " ++ row.1 ++ String.ofList (List.replicate (width - row.1.length + 2) ' ') ++ row.2 ++ "\n")

def helpText (command : Option CommandName) : String :=
  let options := alignedLines ((OptionName.ofCommand command).map fun option =>
    (option.usage, option.purpose))
  match command with
  | some command =>
    command.purpose ++ "\n\nUsage: " ++ programName ++ " " ++ command.text ++ " [OPTIONS] "
      ++ command.argument ++ "\n\nOptions:\n" ++ options
  | none =>
    let commands := CommandName.all.map fun command => (command.text, command.purpose)
    purpose ++ "\n\nUsage: " ++ programName ++ " [OPTIONS] <COMMAND>\n\nCommands:\n"
      ++ alignedLines (commands ++ [(helpCommand, "Print this message or the help of a command")])
      ++ "\nOptions:\n" ++ options

def Misuse.message : Misuse → String
  | noCommand => "error: a command is required"
  | unknownCommand word => "error: unrecognized subcommand '" ++ word ++ "'"
  | unexpected word => "error: unexpected argument '" ++ word ++ "' found"
  | missingValue option => "error: a value is required for '--" ++ option.long ++ "'"
  | unwantedValue option => "error: no value is expected for '--" ++ option.long ++ "'"
  | repeated option => "error: '--" ++ option.long ++ "' cannot be used multiple times"
  | invalidValue option value =>
    "error: invalid value '" ++ value ++ "' for '--" ++ option.long ++ "'"
  | emptyPath => "error: a path must not be empty"
  | missingArgument command => "error: " ++ command.argument ++ " was not provided"

end ClassSieve.Command
