import Targeting.CommandLine.Interface
import Targeting.Tree.Error

/-!
# Commands

## Main definitions

* `Command`, `Change` — what a user can ask for
* `Invocation` — a command with the directory of the local configuration
* `Invocation.read` — the invocation that words spell
-/

namespace Targeting.CommandLine

/-- The group that a category is added to or removed from; inclusion groups are counted from one. -/
inductive GroupChoice where
  | inclusion (number : Nat)
  | exclusion
  deriving DecidableEq

/-- A change to an expression. -/
inductive Change where
  | enable
  | addGroup (role : GroupRole)
  | addCategory (name : String) (group : GroupChoice)
  | removeCategory (name : String) (group : GroupChoice)
  deriving DecidableEq

/-- A view of an expression. -/
inductive View where
  | summary
  | drawing
  | expression
  | state
  deriving DecidableEq

/-- What to print about the configuration. -/
inductive ConfigurationTopic where
  | values
  | template
  | files
  deriving DecidableEq

/-- A shell that can complete commands. -/
inductive Shell where
  | bash
  | elvish
  | fish
  | powershell
  | zsh
  deriving DecidableEq

namespace Shell

/-- All shells. -/
def all : List Shell := [.bash, .elvish, .fish, .powershell, .zsh]

/-- The name of a shell. -/
def name : Shell → String
  | .bash => "bash"
  | .elvish => "elvish"
  | .fish => "fish"
  | .powershell => "powershell"
  | .zsh => "zsh"

end Shell

/-- What a user can ask for. -/
inductive Command where
  | view (file : String) (view : View)
  | change (file : String) (change : Change)
  | configuration (topic : ConfigurationTopic)
  | completion (shell : Shell)
  deriving DecidableEq

/-- A command, if one is given, with the directory of the local configuration, if it is given. -/
structure Invocation where
  directory : Option String
  command : Option Command
  deriving DecidableEq

/-! ### The interface -/

/-- The name of the program. -/
def programName : String := "audtarget"

/-- The switches of every command. -/
def commonSwitches : List Switch := [
  ⟨"debug", some 'd', .counter⟩,
  ⟨"config-dir", some 'C', .value .path⟩,
  ⟨"help", some 'h', .help⟩,
  ⟨"version", some 'V', .version⟩]

/-- The argument for the settings file. -/
def fileArgument : Argument := ⟨"file", .path⟩

/-- The interface of a command on a settings file. -/
def fileInterface (switches : List Switch) : Interface where
  switches := switches ++ commonSwitches
  arguments := [fileArgument]

/-- The interface of a command on a category in a settings file. -/
def categoryInterface : Interface where
  switches := [⟨"group", some 'g', .value .number⟩, ⟨"exclude", some 'x', .flag⟩] ++ commonSwitches
  arguments := [fileArgument, ⟨"category", .text⟩]
  exclusive := [("group", "exclude")]

/-- The interface of a command without arguments. -/
def plainInterface : Interface where
  switches := commonSwitches

/-- The interface of the commands on the configuration. -/
def configurationInterface : Interface where
  switches := commonSwitches
  commandRequired := true
  commands := [("show", plainInterface), ("template", plainInterface), ("path", plainInterface)]

/-- The interface of the completion command. -/
def completionInterface : Interface where
  switches := commonSwitches
  arguments := [⟨"shell", .choice (Shell.all.map Shell.name)⟩]

/-- The interface of the program. -/
def interface : Interface where
  switches := commonSwitches
  commands := [
    ("check", fileInterface []),
    ("tree", fileInterface []),
    ("show", fileInterface [⟨"state", none, .flag⟩]),
    ("enable", fileInterface []),
    ("add-group", fileInterface [⟨"exclude", none, .flag⟩]),
    ("add", categoryInterface),
    ("remove", categoryInterface),
    ("config", configurationInterface),
    ("completion", completionInterface)]

/-! ### Reading -/

namespace Reading

/-- The text of an argument. -/
def text (r : Reading) (name : String) : String := (r.value? name).getD ""

/-- The group that switches choose, by default the first inclusion group. -/
def groupChoice (r : Reading) : GroupChoice :=
  if r.isGiven "exclude" then .exclusion
  else .inclusion (((r.value? "group").bind number?).getD 1)

/-- The command that a reading stands for. -/
def command? (r : Reading) : Option Command :=
  let file := r.text "file"
  match r.commands with
  | ["check"] => some (.view file .summary)
  | ["tree"] => some (.view file .drawing)
  | ["show"] => some (.view file (if r.isGiven "state" then .state else .expression))
  | ["enable"] => some (.change file .enable)
  | ["add-group"] =>
    some (.change file (.addGroup (if r.isGiven "exclude" then .exclusion else .inclusion)))
  | ["add"] => some (.change file (.addCategory (r.text "category") r.groupChoice))
  | ["remove"] => some (.change file (.removeCategory (r.text "category") r.groupChoice))
  | ["config", "show"] => some (.configuration .values)
  | ["config", "template"] => some (.configuration .template)
  | ["config", "path"] => some (.configuration .files)
  | ["completion"] =>
    (Shell.all.find? fun shell => shell.name = r.text "shell").map Command.completion
  | _ => none

end Reading

/-- The invocation that the words behind the name of the program spell. -/
def Invocation.read (words : List String) : Except Refusal Invocation := do
  let reading ← interface.read words
  return { directory := reading.value? "config-dir", command := reading.command? }

end Targeting.CommandLine
