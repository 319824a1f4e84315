import Targeting.Configuration.File
import Targeting.Configuration.Variables
import Targeting.Environment.Expansion
import Targeting.Files.Access

/-!
# Loading the configuration

Each value comes from the highest layer that specifies it: environment variables, then the file in a
local directory, then the file of the user, then the defaults. Missing files specify nothing. The
path of the taxonomy is expanded last.

## Main definitions

* `Configuration.userFile?`, `Configuration.localFile` — where the files are
* `ConfigurationError` — why loading or writing a configuration fails
* `Configuration.load` — the configuration in force
-/

namespace Targeting

/-- Why loading or writing a configuration fails. -/
inductive ConfigurationError where
  | unreadable (path : String) (e : FileError)
  | malformed (path : String)
  | boundTooGreat

/-- The wording of an error. -/
def ConfigurationError.message : ConfigurationError → String
  | .unreadable path e => "config error: read " ++ path ++ ": " ++ e.message
  | .malformed path => "config error: parse " ++ path ++ ": "
  | .boundTooGreat => "config error: serialize config: out-of-range value for u64 type"

namespace Configuration

/-- The directory for the configuration of the user's programs. -/
def userDirectory? (env : Environment) : Option String :=
  env.home?.map fun home =>
    ((env.value? "XDG_CONFIG_HOME").filter Path.isAbsolute).getD (Path.join home ".config")

/-- The configuration file of the user. -/
def userFile? (env : Environment) : Option String :=
  (userDirectory? env).map fun directory =>
    Path.join (Path.join directory "audtarget") "audtarget.toml"

/-- The configuration file of a directory. -/
def localFile (directory : String) : String := Path.join directory ".audtarget.toml"

/-- The configuration with the layers of files and variables over it, given from the lowest to the
highest, and with the path of the taxonomy expanded. -/
def layered (env : Environment) (files : List Layer) : Configuration :=
  let c := (files ++ [Layer.ofEnvironment env]).foldl under {}
  { c with taxonomyFile := c.taxonomyFile.map env.expand }

section

variable {m : Type → Type} [Monad m] [FileAccess m]

/-- The layer in a file; a missing file specifies nothing. -/
def loadLayer (path : String) : ExceptT ConfigurationError m Layer := do
  if !(← FileAccess.isPresent path) then return {}
  match ← FileAccess.read path with
  | .error e => throw (.unreadable path e)
  | .ok text =>
    match Layer.read? text with
    | none => throw (.malformed path)
    | some layer => return layer

/-- The configuration in force in a local directory, if one is given. -/
def load (env : Environment) (directory : Option String) :
    ExceptT ConfigurationError m Configuration := do
  let files := (userFile? env).toList ++ (directory.map localFile).toList
  return layered env (← files.mapM loadLayer)

end

/-- The text of a configuration. -/
def toToml (c : Configuration) : Except ConfigurationError String :=
  match c.toToml? with
  | some text => .ok text
  | none => .error .boundTooGreat

end Configuration

end Targeting
