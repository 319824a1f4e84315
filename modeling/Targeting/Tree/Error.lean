import Targeting.Json.Value
import Targeting.Tree.Node

/-!
# What can go wrong with an expression

Errors are causes; `TreeError.message` gives their wording. A malformed serialized expression names
the position of the first offending part and its fault.

## Main definitions

* `Position` — a place in a serialized expression
* `Fault` — how a serialized node breaks the format
* `TreeError` — the reasons why reading or editing an expression fails
-/

namespace Targeting

/-- The two roles that a group of categories can have in an editable expression. -/
inductive GroupRole where
  | inclusion
  | exclusion
  deriving DecidableEq

namespace GroupRole

/-- The name of a role in messages. -/
def name : GroupRole → String
  | .inclusion => "inclusion"
  | .exclusion => "exclusion"

end GroupRole

/-! ### Places and faults -/

/-- A place in a serialized expression: the operators passed on the way with the number of the item
taken in each, and the key of the node there once it has been read. -/
structure Position where
  steps : List (Operator × Nat) := []
  key : Option String := none
  deriving DecidableEq

namespace Position

/-- The place of an expression itself. -/
def top : Position := {}

/-- The key in the node at a place. -/
def atKey (p : Position) (key : String) : Position := { p with key := some key }

/-- The place of the numbered item of the operator at a place. -/
def item (p : Position) (op : Operator) (index : Nat) : Position :=
  { steps := p.steps ++ [(op, index)] }

/-- The parts of a place joined by slashes; the place of the whole expression is a single slash. -/
def render (p : Position) : String :=
  let steps := p.steps.map fun (op, index) => "/" ++ op.tag ++ "/" ++ toString index
  let path := String.join steps ++ (p.key.map ("/" ++ ·)).getD ""
  if path.isEmpty then "/" else path

end Position

/-- How a serialized node breaks the format. -/
inductive Fault where
  | notObject (found : Json)
  | noKey
  | severalKeys (keys : List String)
  | unknownKey (key : String)
  | notArray (op : Operator) (found : Json)
  | categoryNotString (found : Json)
  | emptyCategory

namespace Fault

/-- The wording of a fault. -/
def message : Fault → String
  | .notObject found => "expected object, found " ++ found.typeName
  | .noKey => "node has no key"
  | .severalKeys keys => "node has more than one key: " ++ ", ".intercalate keys
  | .unknownKey key => "unknown key '" ++ key ++ "'"
  | .notArray op found => "'" ++ op.tag ++ "' must hold an array, found " ++ found.typeName
  | .categoryNotString found => "category must be a string, found " ++ found.typeName
  | .emptyCategory => "empty category key"

end Fault

/-! ### Errors -/

/-- The operations that ask for a node of a certain kind. -/
inductive Operation where
  | appendChild
  | addGroup (role : GroupRole)
  | addCategory
  | removeCategory
  | removeGroup
  deriving DecidableEq

namespace Operation

/-- The name of an operation in messages. -/
def name : Operation → String
  | .appendChild => "append_child"
  | .addGroup .inclusion => "add_inclusion_group"
  | .addGroup .exclusion => "add_exclusion_group"
  | .addCategory => "add_category"
  | .removeCategory => "remove_category"
  | .removeGroup => "remove_group"

/-- The kind of node that an operation asks for. -/
def expected : Operation → String
  | .appendChild => "and, or or not"
  | .addGroup _ => "and"
  | .addCategory | .removeCategory | .removeGroup => "or"

end Operation

/-- Why reading or editing an expression fails. -/
inductive TreeError where
  | malformed (position : Position) (fault : Fault)
  | wrongKind (operation : Operation) (found : NodeKind)
  | nodeNotFound (id : NodeId)
  | alreadyAttached (id : NodeId)
  | wouldCreateCycle (id : NodeId)
  | groupLimitReached (role : GroupRole) (limit : Nat)

/-- An identifier in messages. -/
def NodeId.render (id : NodeId) : String :=
  "Index \x7b index: " ++ toString id.index ++ ", generation: " ++ toString id.generation ++ " \x7d"

namespace TreeError

/-- The wording of an error. -/
def message : TreeError → String
  | .malformed position fault =>
    "malformed expression at " ++ position.render ++ ": " ++ fault.message
  | .wrongKind operation found =>
    "invalid node kind for " ++ operation.name ++ ": expected " ++ operation.expected
      ++ ", found " ++ found.tag
  | .nodeNotFound id => "node not found: " ++ id.render
  | .alreadyAttached id => "node already attached to a tree: " ++ id.render
  | .wouldCreateCycle id => "appending " ++ id.render ++ " would create a cycle"
  | .groupLimitReached role limit =>
    role.name ++ " group limit reached: at most " ++ toString limit

/-- Whether the error stems from malformed stored data. -/
def isMalformed : TreeError → Bool
  | .malformed .. => true
  | _ => false

end TreeError

end Targeting
