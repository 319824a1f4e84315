import Targeting.Configuration.Load
import Targeting.Storage

/-!
# Failing commands

## Main definitions

* `CommandError` — why a command fails
* `CommandError.message`, `CommandError.exitCode` — its wording and the number it ends with
-/

namespace Targeting.CommandLine

/-- Why a command fails. -/
inductive CommandError where
  | storage (e : StorageError)
  | configuration (e : ConfigurationError)
  | noCurrentDirectory
  | noCommand
  | noFurtherInclusionGroup (limit : Nat)
  | noFurtherExclusionGroup
  | noExclusionGroup
  | noInclusionGroup (number available : Nat)

namespace CommandError

/-- The wording of an error. -/
def message : CommandError → String
  | .storage e => e.message
  | .configuration e => e.message
  | .noCurrentDirectory => "I/O error: get current directory"
  | .noCommand => "no command given, see --help"
  | .noFurtherInclusionGroup limit =>
    "at most " ++ toString limit ++ " inclusion groups allowed"
  | .noFurtherExclusionGroup => "exclusion group already exists"
  | .noExclusionGroup => "no exclusion group, run `add-group --exclude` first"
  | .noInclusionGroup number available =>
    "invalid arguments: inclusion group " ++ toString number ++ " does not exist ("
      ++ toString available ++ " available)"

/-- The error that a session refuses an action. -/
def session (e : SessionError) : CommandError := .storage (.session e)

end CommandError

/-- The numbers with which the program ends, by kind of failure. -/
inductive ExitCode where
  | usage
  | data
  | software
  | files
  | configuration
  deriving DecidableEq

/-- The number of a kind of failure. -/
def ExitCode.number : ExitCode → Nat
  | .usage => 64
  | .data => 65
  | .software => 70
  | .files => 74
  | .configuration => 78

/-- The kind of failure that an error of a session is. -/
def sessionExitCode (e : SessionError) : ExitCode :=
  match e with
  | .readOnly => .data
  | e => if e.isMalformed then .data else .software

/-- The kind of failure that an error is. -/
def CommandError.exitCode : CommandError → ExitCode
  | .storage (.session e) => sessionExitCode e
  | .storage (.stepFailed ..) | .storage (.taxonomyUnreadable _) | .noCurrentDirectory => .files
  | .storage (.taxonomyMalformed _) => .data
  | .configuration _ => .configuration
  | _ => .usage

end Targeting.CommandLine
