import Targeting.CommandLine.Change
import Targeting.CommandLine.Completion
import Targeting.Tree.Drawing

/-!
# Running commands

A command runs in a monad with access to files and collects its report. The configuration is loaded
first, then the taxonomy, then the settings; a change that succeeds saves the settings.

## Main definitions

* `Program` — a computation with a report that may fail
* `Program.ofInvocation` — what an invocation does
* `Program.run` — the whole report and the number that the program ends with
-/

namespace Targeting.CommandLine

/-- What surrounds a running program: its environment, and the current directory, unless the system
cannot tell it. -/
structure Surroundings where
  environment : Environment
  directory : Option String

/-- A computation that reports and may fail. What it has reported before a failure stays. -/
abbrev Program (m : Type → Type) := ExceptT CommandError (StateT Report m)

namespace Program

variable {m : Type → Type} [Monad m] [FileAccess m]

/-- Reports a line. -/
def say (line : Line) : Program m Unit := modify (· ++ [line])

/-- Loading or saving as a part of a command. -/
def stored {α : Type} (action : ExceptT StorageError (StateT Report m) α) : Program m α :=
  ExceptT.adapt CommandError.storage action

/-- Loading the configuration as a part of a command. -/
def configured {α : Type} (action : ExceptT ConfigurationError (StateT Report m) α) :
    Program m α :=
  ExceptT.adapt CommandError.configuration action

/-! ### Views -/

/-- The lines on how full the groups of an expression are. -/
def groupLines (info : TargetingInfo) : Report :=
  info.inclusion.mapIdx (fun i group =>
      .detail ("inclusion group " ++ toString (i + 1) ++ ": " ++ toString group.length
        ++ " categories"))
    ++ (info.exclusion.map fun group =>
      Line.detail ("exclusion group: " ++ toString group.length ++ " categories")).toList
    ++ [.detail (toString info.categories.length ++ " distinct categories, "
      ++ toString info.unresolved ++ " unresolved")]

/-- The lines that sum up an expression. -/
def summary (s : Session) : Report :=
  let header := Line.header ("entity " ++ s.settings.displayId)
  let body (line : Line) : Report :=
    header :: line :: (s.info.map groupLines).getD []
      ++ if s.isEnabled then [] else [.warning "no group holds a category yet"]
  match s.phase with
  | .empty => [header, .detail "no targeting expression"]
  | .readOnly => body (.warning "expression does not fit the editable grammar, read-only")
  | _ => body (.success "editable")

/-- The lines of a view. -/
def viewLines (s : Session) : View → Report
  | .summary => summary s
  | .drawing =>
    match s.tree with
    | some t => [.plain t.drawing]
    | none => [.detail "no targeting expression"]
  | .expression => [.plain ((s.tree.map Tree.toJson).getD .null).pretty]
  | .state => [.plain s.state.toJson.pretty]

/-! ### Commands -/

/-- Shows the expression in a file. -/
def view (editor : Editor) (file : String) (view : View) : Program m Unit := do
  let s ← stored (editor.openSession file)
  modify (· ++ viewLines s view)

/-- Changes the expression in a file. -/
def change (editor : Editor) (file : String) (change : Change) : Program m Unit := do
  let s ← stored (editor.openSession file)
  match (change.act editor.configuration).run.run s with
  | (.error e, _) => throw e
  | (.ok saved, s) =>
    let line := change.report editor.configuration file s saved
    if change.isReportedFirst then say line
    if saved then stored (saveSession file s)
    if !change.isReportedFirst then say line

/-- The line on a configuration file. -/
def fileLine (path : String) : Program m String := do
  let isPresent ← FileAccess.isPresent path
  return path ++ (if isPresent then " (exists)" else " (missing)")

/-- Prints about the configuration in force in a directory. -/
def showConfiguration (env : Environment) (directory : String) (c : Configuration) :
    ConfigurationTopic → Program m Unit
  | .values =>
    match c.toToml with
    | .ok text => say (.plain text)
    | .error e => throw (.configuration e)
  | .template => say (.plain Configuration.template)
  | .files => do
    let files := (Configuration.userFile? env).toList ++ [Configuration.localFile directory]
    say (.plain ("\n".intercalate (← files.mapM fileLine)))

/-- What an invocation does. It needs a directory for the local configuration, whatever its command
is. -/
def ofInvocation (around : Surroundings) (invocation : Invocation) : Program m Unit := do
  let some directory := invocation.directory.or around.directory
    | throw .noCurrentDirectory
  match invocation.command with
  | none => throw .noCommand
  | some (.completion shell) => say (.plain (completionScript shell))
  | some command =>
    let c ← configured (Configuration.load around.environment directory)
    match command with
    | .configuration topic => showConfiguration around.environment directory c topic
    | .view file kind => do view (← stored (Editor.start c)) file kind
    | .change file kind => do change (← stored (Editor.start c)) file kind
    | .completion shell => say (.plain (completionScript shell))

/-- The whole report of a program, and the number that it ends with. -/
def run (program : Program m Unit) : m (Report × Nat) := do
  match ← StateT.run (ExceptT.run program) [] with
  | (.ok (), report) => return (report, 0)
  | (.error e, report) => return (report ++ [.error e.message], e.exitCode.number)

end Program

end Targeting.CommandLine
