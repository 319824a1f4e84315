import Targeting.Tree.Edit

/-!
# Reading a serialized expression

A serialized expression is an object with exactly one member: an operator key with an array of
expressions, or the key `category` with a nonempty string. The absent expression `null` is the
empty tree. A node is stored before its children, and each child is attached once it is complete;
the first part that breaks the format, from left to right, is reported.

## Main definitions

* `Tree.ofJson` — the tree of a serialized expression
-/

namespace Targeting.Expression

/-- Refuses the part of an expression at the given place. -/
def refuse {α : Type} (position : Position) (fault : Fault) : Edit α :=
  throw (.malformed position fault)

/-- Stores the node of a category whose key is the given value. -/
def readCategory (position : Position) : Json → Edit NodeId
  | .string "" => refuse position .emptyCategory
  | .string category => Edit.create (.category category)
  | body => refuse position (.categoryNotString body)

mutual

/-- Stores the nodes of the expression at the given place. -/
def readNode (position : Position) : Json → Edit NodeId
  | .object [] => refuse position .noKey
  | .object [(key, body)] =>
    match Operator.ofTag? key with
    | some op => readOperator position op body
    | none =>
      if key = "category" then readCategory (position.atKey key) body
      else refuse (position.atKey key) (.unknownKey key)
  | .object members => refuse position (.severalKeys (members.map (·.1)))
  | value => refuse position (.notObject value)

/-- Stores the nodes of an operator that holds the given value. -/
def readOperator (position : Position) (op : Operator) : Json → Edit NodeId
  | .array items => do
    let id ← Edit.create (.operator op)
    readItems position op id 0 items
    return id
  | body => refuse (position.atKey op.tag) (.notArray op body)

/-- Stores the nodes of operands, the first of which has the given number, and attaches them. -/
def readItems (position : Position) (op : Operator) (parent : NodeId) (index : Nat) :
    List Json → Edit Unit
  | [] => return ()
  | item :: items => do
    let child ← readNode (position.item op index) item
    Edit.appendChild parent child
    readItems position op parent (index + 1) items

end

/-- Stores the nodes of an expression and makes the topmost one the root. -/
def read (value : Json) : Edit Unit := do
  let root ← readNode .top value
  Edit.setRoot root

end Targeting.Expression

namespace Targeting.Tree

/-- The tree of a serialized expression. -/
def ofJson (value : Json) : Except TreeError Tree :=
  if value.isNull then .ok .empty
  else
    match (Expression.read value).on .empty with
    | (.ok (), t) => .ok t
    | (.error e, _) => .error e

end Targeting.Tree
