import Targeting.Entity
import Targeting.Expression.Reader
import Targeting.Expression.Writer
import Targeting.Json.Inspection
import Targeting.Session.Info

/-!
# Editing sessions

A session edits the expression of one entity. Loading reads the stored expression and finds out
whether it can be edited; edits then change the tree held by the session, and `toSettings` gives
the settings to store. A session that failed to load, or whose expression is outside the
editable grammar, refuses all edits.

## Main definitions

* `Session` — the state of a session
* `Session.Phase`, `Session.phase` — where a session stands in its life
* `SessionError` — why an action of a session fails
* `Session.Action` — a computation that changes a session and may fail
* `Session.load`, `Session.enableTargeting`, `Session.addGroup`, `Session.addCategory`,
  `Session.removeCategory`, `Session.removeGroup` — the actions
* `Session.toSettings` — the settings with the current expression
-/

namespace Targeting

/-- Why an action of a session fails. -/
inductive SessionError where
  | tree (e : TreeError)
  | notInitialized
  | targetingNotEnabled
  | readOnly

namespace SessionError

/-- The wording of an error. -/
def message : SessionError → String
  | .tree e => e.message
  | .notInitialized => "editor session not initialized"
  | .targetingNotEnabled => "targeting not enabled: no expression to edit"
  | .readOnly => "expression is read-only: it does not fit the editable grammar"

/-- Whether the error stems from malformed stored data. -/
def isMalformed : SessionError → Bool
  | .tree e => e.isMalformed
  | _ => false

end SessionError

/-- The state of a session. -/
structure Session where
  settings : EntitySettings
  grammar : Grammar
  resolve : Resolver
  tree : Option Tree := none
  info : Option TargetingInfo := none
  editable : Bool := false
  initialized : Bool := false

namespace Session

/-- Where a session stands in its life. -/
inductive Phase where
  | uninitialized
  | empty
  | composing
  | readOnly
  deriving DecidableEq

/-- The name of a phase. -/
def Phase.name : Phase → String
  | .uninitialized => "Uninitialized"
  | .empty => "Empty"
  | .composing => "Composing"
  | .readOnly => "ReadOnly"

/-- The phase of a session. -/
def phase (s : Session) : Phase :=
  if !s.initialized then .uninitialized
  else if s.tree.isNone then .empty
  else if s.editable then .composing
  else .readOnly

/-- The session for an entity, before its expression has been read. -/
def create (settings : EntitySettings) (grammar : Grammar) (resolve : Resolver) : Session :=
  { settings, grammar, resolve }

/-- The root of the tree, if there is a tree with a root. -/
def root (s : Session) : Option NodeId := s.tree.bind (·.root)

/-! ### What a view sees -/

/-- A snapshot for a view. -/
structure State where
  tree : Option Tree
  info : Option TargetingInfo
  editable : Bool

/-- The snapshot of a session. -/
def state (s : Session) : State := { tree := s.tree, info := s.info, editable := s.editable }

/-- A snapshot as a value. -/
def State.toJson (s : State) : Json :=
  .object [
    ("expression_tree", (s.tree.map Tree.toJson).getD .null),
    ("info", (s.info.map TargetingInfo.toJson).getD .null),
    ("editable", .bool s.editable)]

/-- A session for inspection. -/
def inspect (s : Session) : String :=
  "EditorSession \x7b entity: " ++ s.settings.id.inspect ++ ", phase: " ++ s.phase.name ++ " \x7d"

/-- Whether a group of a role can be added. -/
def canAddGroup (s : Session) (role : GroupRole) : Bool :=
  s.initialized && s.editable && (s.tree.any fun t =>
    t.root.any fun root => t.canAddGroup role root s.grammar)

/-- Whether some group holds a category. -/
def isEnabled (s : Session) : Bool := s.tree.any Tree.isEnabled

/-- The inclusion groups in order. -/
def inclusionGroups (s : Session) : List NodeId := (s.tree.map Tree.inclusionGroups).getD []

/-- The exclusion group. -/
def exclusionGroup (s : Session) : Option NodeId := s.tree.bind Tree.exclusionGroup

/-- The settings with the current expression in place of the stored one. -/
def toSettings (s : Session) : EntitySettings :=
  { s.settings with targeting := (s.tree.map Tree.toJson).bind EntitySettings.present? }

/-! ### Actions -/

/-- A computation that changes a session and may fail. Changes made before a failure stay. -/
abbrev Action := ExceptT SessionError (StateM Session)

/-- The result of an action on a session, and the session afterwards. -/
def Action.on {α : Type} (action : Action α) (s : Session) : Except SessionError α × Session :=
  (ExceptT.run action).run s

/-- The session with names filled in and the description of its current tree. -/
def refreshed (s : Session) : Session :=
  match s.tree with
  | none => { s with info := none }
  | some t =>
    let t := t.resolveNames s.resolve
    { s with tree := some t, info := some (TargetingInfo.ofTree t s.editable) }

/-- Fills in missing names and describes the current tree anew. -/
def refresh : Action Unit := modify refreshed

/-- Runs an edit on a tree that becomes the tree of the session, also when the edit fails. -/
def runEdit {α : Type} (edit : Edit α) (t : Tree) : Action α := do
  let (result, t) := edit.on t
  modify fun s => { s with tree := some t }
  match result with
  | .ok a => return a
  | .error e => throw (.tree e)

/-- Reads the stored expression and finds out whether it can be edited. Edits made since are
lost. -/
def load : Action Unit := do
  modify fun s => { s with tree := none, info := none, editable := false, initialized := false }
  let s ← get
  match Tree.ofJson s.settings.expression with
  | .error e => throw (.tree e)
  | .ok t =>
    if !t.isEmpty then
      modify fun s => { s with tree := some t, editable := t.isEditable s.grammar }
      refresh
    modify fun s => { s with initialized := true }

/-- Fails before the expression has been read. -/
def expectInitialized : Action Unit := do
  if !(← get).initialized then throw .notInitialized

/-- Creates the root with a first inclusion group unless there is a root. -/
def enableTargeting : Action NodeId := do
  expectInitialized
  let s ← get
  if s.tree.isSome && !s.editable then throw .readOnly
  let root ← runEdit Edit.enableTargeting (s.tree.getD .empty)
  modify fun s => { s with editable := true }
  refresh
  return root

/-- Runs an edit that needs an editable expression; the edit is given the root. -/
def edit {α : Type} (f : NodeId → Edit α) : Action α := do
  expectInitialized
  let s ← get
  if s.tree.isSome && !s.editable then throw .readOnly
  match s.tree with
  | none => throw .targetingNotEnabled
  | some t =>
    match t.root with
    | none => throw .targetingNotEnabled
    | some root =>
      let result ← runEdit (f root) t
      refresh
      return result

/-- Adds a group of a role, and returns the `or` that categories go into. -/
def addGroup (role : GroupRole) : Action NodeId := do
  let s ← get
  edit fun root => Edit.addGroup role root s.grammar

/-- Adds a category to a group. -/
def addCategory (group : NodeId) (key : String) : Action NodeId :=
  edit fun _ => Edit.addCategory group key

/-- Removes a category from a group. -/
def removeCategory (group : NodeId) (key : String) : Action Bool :=
  edit fun _ => Edit.removeCategory group key

/-- Removes a group. -/
def removeGroup (group : NodeId) : Action Bool := edit fun _ => Edit.removeGroup group

end Session

end Targeting
