import Targeting.Configuration.Basic
import Targeting.Files.Access
import Targeting.Session.Basic

/-!
# Stored settings and taxonomies

Settings and taxonomies are kept in files. An `Editor` opens sessions on settings files and saves
them again.

## Main definitions

* `StorageError` — why loading or saving fails
* `Editor` — a configuration with its taxonomy
* `Editor.start` — loads the taxonomy of a configuration
* `Editor.openSession`, `saveSession` — from a file to a session, and back
-/

namespace Targeting

/-- The steps of loading and saving settings that can fail. -/
inductive StorageStep where
  | readSettings
  | parseSettings
  | writeSettings
  deriving DecidableEq

/-- The name of a step in messages. -/
def StorageStep.name : StorageStep → String
  | .readSettings => "read settings"
  | .parseSettings => "parse settings"
  | .writeSettings => "write settings"

/-- Why loading or saving fails. -/
inductive StorageError where
  | session (e : SessionError)
  | stepFailed (step : StorageStep) (path : String)
  | taxonomyUnreadable (path : String)
  | taxonomyMalformed (path : String)

/-- The wording of an error. -/
def StorageError.message : StorageError → String
  | .session e => e.message
  | .stepFailed step path => "operation failed: " ++ step.name ++ ": " ++ path
  | .taxonomyUnreadable path => "I/O error: read taxonomy " ++ path
  | .taxonomyMalformed path => "invalid taxonomy file " ++ path ++ ": "

/-- A configuration with its taxonomy. -/
structure Editor where
  configuration : Configuration := {}
  resolve : Resolver := .none

section

variable {m : Type → Type} [Monad m] [FileAccess m]

/-- Reads the settings in a file. -/
def loadSettings (path : String) : ExceptT StorageError m EntitySettings := do
  match ← FileAccess.read path with
  | .error _ => throw (.stepFailed .readSettings path)
  | .ok text =>
    match EntitySettings.read? text with
    | none => throw (.stepFailed .parseSettings path)
    | some settings => return settings

/-- Writes the settings of a session, with the current expression, to a file. -/
def saveSession (path : String) (session : Session) : ExceptT StorageError m Unit := do
  match ← FileAccess.write path session.toSettings.write with
  | .error _ => throw (.stepFailed .writeSettings path)
  | .ok () => return ()

/-- Reads the taxonomy in a file. -/
def loadTaxonomy (path : String) : ExceptT StorageError m Taxonomy := do
  match ← FileAccess.read path with
  | .error _ => throw (.taxonomyUnreadable path)
  | .ok text =>
    match Taxonomy.read? text with
    | none => throw (.taxonomyMalformed path)
    | some taxonomy => return taxonomy

namespace Editor

/-- Loads the taxonomy that a configuration names, if it names one. -/
def start (configuration : Configuration) : ExceptT StorageError m Editor := do
  match configuration.taxonomyFile with
  | some path => return { configuration, resolve := (← loadTaxonomy path).resolver }
  | none => return { configuration }

/-- A session on the settings in a file, with the expression read. -/
def openSession (editor : Editor) (path : String) : ExceptT StorageError m Session := do
  let settings ← loadSettings path
  let session := Session.create settings editor.configuration.grammar editor.resolve
  match Session.load.on session with
  | (.ok (), session) => return session
  | (.error e, _) => throw (.session e)

end Editor

end

end Targeting
