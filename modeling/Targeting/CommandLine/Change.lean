import Targeting.CommandLine.Command
import Targeting.CommandLine.Error
import Targeting.CommandLine.Report

/-!
# Changes on the command line

A change acts on a session whose expression has been read. Adding to an expression that is absent
creates it first. The files do not matter here: a change only says whether its session is to be
saved.

## Main definitions

* `Change.act` — the effect of a change on a session
* `Change.report` — the line that reports it
-/

namespace Targeting.CommandLine

/-- A computation that changes a session and may fail with an error of a command. -/
abbrev SessionChange := ExceptT CommandError (StateM Session)

/-- An action of a session as a part of a command. -/
def perform {α : Type} (action : Session.Action α) : SessionChange α :=
  ExceptT.adapt CommandError.session action

/-- The group that a choice stands for. -/
def chosenGroup (s : Session) : GroupChoice → Except CommandError NodeId
  | .exclusion =>
    match s.exclusionGroup with
    | some group => .ok group
    | none => .error .noExclusionGroup
  | .inclusion number =>
    match number, s.inclusionGroups[number - 1]? with
    | _ + 1, some group => .ok group
    | number, _ => .error (.noInclusionGroup number s.inclusionGroups.length)

/-- The group that a choice stands for in the session at hand. -/
def chooseGroup (choice : GroupChoice) : SessionChange NodeId := do
  match chosenGroup (← get) choice with
  | .ok group => return group
  | .error e => throw e

/-- Refuses an expression that cannot be edited. -/
def expectWritable : SessionChange Unit := do
  if (← get).phase = .readOnly then throw (.session .readOnly)

/-- Creates an expression that is absent. -/
def enableIfEmpty : SessionChange Unit := do
  if (← get).phase = .empty then discard (perform Session.enableTargeting)

namespace GroupRole

/-- The error that no further group of a role can be added. -/
def exhausted (role : GroupRole) (g : Grammar) : CommandError :=
  match role with
  | .inclusion => .noFurtherInclusionGroup g.maxInclusionGroups
  | .exclusion => .noFurtherExclusionGroup

end GroupRole

namespace Change

/-- The effect of a change on a session, and whether the session is to be saved. A new expression
has an inclusion group already, which counts as the one to be added. -/
def act (c : Configuration) : Change → SessionChange Bool
  | .enable => do
    if (← get).root.isSome then return false
    discard (perform Session.enableTargeting)
    return true
  | .addGroup role => do
    let isNew := (← get).phase = .empty
    discard (perform Session.enableTargeting)
    if isNew ∧ role = .inclusion then return true
    let s ← get
    if !s.canAddGroup role then throw (GroupRole.exhausted role s.grammar)
    discard (perform (Session.addGroup role))
    return true
  | .addCategory name choice => do
    expectWritable
    enableIfEmpty
    let group ← chooseGroup choice
    discard (perform (Session.addCategory group (c.categoryKey name)))
    return true
  | .removeCategory name choice => do
    expectWritable
    let group ← chooseGroup choice
    perform (Session.removeCategory group (c.categoryKey name))

/-- Whether a change is reported before it is saved. -/
def isReportedFirst : Change → Bool
  | .addGroup _ => true
  | _ => false

/-- The line that reports a change to the settings in a file, which left the given session to be
saved or had nothing to do. -/
def report (c : Configuration) (file : String) (s : Session) (saved : Bool) : Change → Line
  | .enable => if saved then .action "Enabled" file else .detail "targeting already enabled"
  | .addGroup .inclusion =>
    .action "Added" ("inclusion group " ++ toString s.inclusionGroups.length)
  | .addGroup .exclusion => .action "Added" "exclusion group"
  | .addCategory name _ =>
    let key := c.categoryKey name
    match s.info.bind (·.nameOf key) with
    | some name => .action "Added" (key ++ " (" ++ name ++ ")")
    | none => .action "Added" key
  | .removeCategory name _ =>
    let key := c.categoryKey name
    if saved then .action "Removed" key else .warning (key ++ " not in group, nothing to do")

end Change

end Targeting.CommandLine
