import Targeting.CommandLine.Command

/-!
# Completion of commands

## Main definitions

* `completionScript` — the lines that teach a shell the commands of the program
-/

namespace Targeting.CommandLine

/-- The words that may follow the name of the program. -/
def commandWords : List String := interface.commands.map (·.1) ++ ["help"]

/-- The lines that teach a shell the commands of the program. -/
def completionScript : Shell → String
  | .bash => "complete -W \"" ++ " ".intercalate commandWords ++ "\" -o default " ++ programName
  | .elvish =>
    "set edit:completion:arg-completer[" ++ programName ++ "] = \x7b |@words| put "
      ++ " ".intercalate commandWords ++ " \x7d"
  | .fish => "complete -c " ++ programName ++ " -a \"" ++ " ".intercalate commandWords ++ "\""
  | .powershell =>
    "Register-ArgumentCompleter -Native -CommandName " ++ programName
      ++ " -ScriptBlock \x7b '" ++ "', '".intercalate commandWords ++ "' \x7d"
  | .zsh =>
    "#compdef " ++ programName ++ "\n_arguments '1:command:(" ++ " ".intercalate commandWords
      ++ ")' '*:file:_files'"

end Targeting.CommandLine
