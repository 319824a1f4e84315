import Targeting.Tree.Arena

/-!
# Nodes of a targeting expression

An expression combines audience categories with the operators `and`, `or` and `not`. A node of its
tree is an operator with children or a category, and knows its parent.

## Main definitions

* `Operator`, `NodeKind` — what a node is
* `Node` — a stored node
-/

namespace Targeting

/-- An operator of a targeting expression. -/
inductive Operator where
  | and
  | or
  | not
  deriving DecidableEq

namespace Operator

/-- The key of an operator in a serialized expression. -/
def tag : Operator → String
  | .and => "and"
  | .or => "or"
  | .not => "not"

/-- The operator with the given key. -/
def ofTag? (tag : String) : Option Operator :=
  if tag = "and" then some .and
  else if tag = "or" then some .or
  else if tag = "not" then some .not
  else none

/-- The name of an operator in a drawing. -/
def label : Operator → String
  | .and => "AND"
  | .or => "OR"
  | .not => "NOT"

end Operator

/-- What a node is: an operator, or a category with its key. -/
inductive NodeKind where
  | operator (op : Operator)
  | category (key : String)
  deriving DecidableEq

namespace NodeKind

/-- The kind of a conjunction. -/
@[match_pattern] abbrev and : NodeKind := .operator .and

/-- The kind of a disjunction. -/
@[match_pattern] abbrev or : NodeKind := .operator .or

/-- The kind of a negation. -/
@[match_pattern] abbrev not : NodeKind := .operator .not

/-- The key of a kind in a serialized expression. -/
def tag : NodeKind → String
  | .operator op => op.tag
  | .category _ => "category"

/-- Categories are the leaves of an expression. -/
def isLeaf : NodeKind → Bool
  | .operator _ => false
  | .category _ => true

/-- The key of a category. -/
def categoryKey? : NodeKind → Option String
  | .operator _ => none
  | .category key => some key

/-- The name of a kind in a drawing. -/
def label : NodeKind → String
  | .operator op => op.label
  | .category key => "CATEGORY " ++ key

end NodeKind

/-- A stored node. The display name belongs to a category that a taxonomy knows. -/
structure Node where
  kind : NodeKind
  displayName : Option String := none
  parent : Option NodeId := none
  children : List NodeId := []
  deriving DecidableEq

namespace Node

/-- The name of a node in a drawing: a category shows its display name if it has one. -/
def label (n : Node) : String :=
  match n.kind, n.displayName with
  | .category _, some name => n.kind.label ++ " (" ++ name ++ ")"
  | kind, _ => kind.label

end Node

end Targeting
