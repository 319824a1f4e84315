import Targeting.Toml.Value

/-!
# Building tables

A table is built from statements in the order of the document. A key is defined at most once; a
header names a table that has no header yet; and a dotted key never extends a table that has a
header. The last element of an array of tables stands for the array wherever a path leads through
it.

## Main definitions

* `Statement` — an entry, the header of a table or the header of an element
* `Members.enter?` — changes the table at the end of a path
* `Members.define?`, `Members.openTable?`, `Members.openElement?` — the three kinds of statement
* `Members.ofStatements?` — the table that statements build
-/

namespace Targeting.Toml

/-- A statement of a document: an entry, the header of a table, or the header of an element of an
array of tables. -/
inductive Statement where
  | entry (path : List String) (value : Value)
  | table (path : List String)
  | element (path : List String)

namespace Members

/-- Changes the members of the table at the end of a path that starts in a table of the given
form. Missing tables on the way are made, as `dotted` ones for a dotted key and as `passed` ones for
a header. -/
def enter? (made : TableForm) (change : TableForm → Members → Option Members) :
    List String → TableForm → Members → Option Members
  | [], form, members => change form members
  | key :: path, _, members =>
    match members.get? key with
    | none => (enter? made change path made []).map fun inner => members.add key (.table made inner)
    | some (.table form inner) =>
      if form = .inline ∨ (made = .dotted ∧ form = .header) then none
      else (enter? made change path form inner).map fun inner =>
        members.replace key (.table form inner)
    | some (.tables elements) =>
      match elements.getLast? with
      | none => none
      | some last => (enter? made change path .header last).map fun inner =>
        members.replace key (.tables (elements.dropLast ++ [inner]))
    | some _ => none

/-- Defines a key in the table that a dotted key leads to, starting in a table of the given form.
The table itself is extended by plain keys only, and what a dotted key leads to only if a dotted key
made it. -/
def define? (path : List String) (value : Value) (form : TableForm) (members : Members) :
    Option Members :=
  match path.getLast? with
  | none => none
  | some key =>
    let above := path.dropLast
    enter? .dotted (fun form members =>
      if (form ≠ .dotted ∧ above ≠ []) ∨ (members.get? key).isSome then none
      else some (members.add key value)) above form members

/-- Starts the table that a header names. -/
def openTable? (path : List String) (members : Members) : Option Members :=
  match path.getLast? with
  | none => none
  | some key =>
    enter? .passed (fun _ members =>
      match members.get? key with
      | none => some (members.add key (.table .header []))
      | some (.table .passed inner) => some (members.replace key (.table .header inner))
      | some _ => none) path.dropLast .header members

/-- Starts the next element of the array of tables that a header names. -/
def openElement? (path : List String) (members : Members) : Option Members :=
  match path.getLast? with
  | none => none
  | some key =>
    enter? .passed (fun _ members =>
      match members.get? key with
      | none => some (members.add key (.tables [[]]))
      | some (.tables elements) => some (members.replace key (.tables (elements ++ [[]])))
      | some _ => none) path.dropLast .header members

/-- The table that statements build on one under construction, when the last header has named
`current`. -/
def build? : List String → Members → List Statement → Option Members
  | _, members, [] => some members
  | current, members, .entry path value :: rest => do
    build? current (← enter? .passed (define? path value) current .header members) rest
  | _, members, .table path :: rest => do build? path (← members.openTable? path) rest
  | _, members, .element path :: rest => do build? path (← members.openElement? path) rest

/-- The table that statements build. -/
def ofStatements? (statements : List Statement) : Option Members := build? [] [] statements

/-- The members of a table in braces, given by dotted keys and values. -/
def ofEntries? (entries : List (List String × Value)) : Option Members :=
  entries.foldlM (fun members (path, value) => define? path value .inline members) []

end Members

end Targeting.Toml
