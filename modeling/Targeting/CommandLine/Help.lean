import Targeting.CommandLine.Command

/-!
# Help

## Main definitions

* `usage` — the commands of the program
* `Refusal.message` — what to print when words spell no command
-/

namespace Targeting.CommandLine

/-- The version of the program. -/
def version : String := "0.3.0"

/-- A line for one command. -/
def usageLine (command purpose : String) : String := "  " ++ command ++ "\n      " ++ purpose

/-- The commands of the program. -/
def usage : String := "\n".intercalate [
  "Inspect and edit audience targeting expressions stored in entity settings files",
  "",
  "Usage: " ++ programName ++ " [-C DIRECTORY] COMMAND",
  "",
  usageLine "check FILE" "Parse the expression and report whether it is editable",
  usageLine "tree FILE" "Show the expression as a tree",
  usageLine "show FILE [--state]" "Print the serialized expression or the full editor state",
  usageLine "enable FILE" "Create an empty expression with one inclusion group",
  usageLine "add-group FILE [--exclude]" "Add an inclusion group (or the exclusion group)",
  usageLine "add FILE CATEGORY [-g NUMBER | -x]" "Add a category to a group",
  usageLine "remove FILE CATEGORY [-g NUMBER | -x]" "Remove a category from a group",
  usageLine "config show|template|path" "Print about the configuration",
  usageLine "completion SHELL" "Generate shell completions",
  ""]

/-- What to print when words spell no command. -/
def Refusal.message : Refusal → String
  | .helpRequested | .helpForLackOfCommand => usage
  | .versionRequested => programName ++ " " ++ version ++ "\n"
  | .commandMissing => "error: a command is required\n"
  | .unknownCommand => "error: unknown command\n"
  | .unknownArgument => "error: unexpected argument\n"
  | .valueForFlag => "error: unexpected value\n"
  | .valueMissingOrUnknown => "error: a value is missing or unknown\n"
  | .notANumber => "error: a value is not a number\n"
  | .conflict => "error: arguments exclude each other\n"
  | .argumentMissing => "error: an argument is missing\n"

end Targeting.CommandLine
