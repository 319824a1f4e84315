import Targeting.Configuration.Layer
import Targeting.Toml.Reader
import Targeting.Toml.Writer

/-!
# Configuration files

A configuration file is a TOML document with the keys `provider` and `taxonomy_file` and the table
`grammar`, all of them optional. Other keys have no meaning. The bounds of the grammar may also be
given as an array, the bound on inclusion groups first.

## Main definitions

* `Layer.read?` — the layer that a text describes
* `Configuration.toToml?` — the text of a configuration
* `Configuration.template` — a commented file to start from
-/

namespace Targeting

open Toml (Members Value)

namespace Layer

/-- The value of an optional key, which must have the type that `of?` expects. -/
def optional? {α : Type} (of? : Value → Option α) : Option Value → Option (Option α)
  | none => some none
  | some value => (of? value).map some

/-- A text. -/
def ofText? : Value → Option String
  | .string s => some s
  | _ => none

/-- A bound on the number of groups. -/
def ofBound? : Value → Option Nat
  | .integer n => if 0 ≤ n then some n.toNat else none
  | _ => none

/-- A layer with two optional bounds. -/
def withBounds? (l : Layer) (inclusion exclusion : Option Value) : Option Layer := do
  return { l with
    maxInclusionGroups := ← optional? ofBound? inclusion
    maxExclusionGroups := ← optional? ofBound? exclusion }

/-- A layer with the bounds that the value of `grammar` gives. A date has none. -/
def withGrammar? (l : Layer) : Value → Option Layer
  | .table _ members =>
    l.withBounds? (Members.get? members "max_inclusion_groups")
      (Members.get? members "max_exclusion_groups")
  | .array items => l.withBounds? items[0]? items[1]?
  | .moment _ => some l
  | _ => none

/-- The layer that the members of a document describe. -/
def ofMembers? (members : Members) : Option Layer := do
  let layer : Layer :=
    { provider := ← optional? ofText? (members.get? "provider")
      taxonomyFile := ← optional? ofText? (members.get? "taxonomy_file") }
  match members.get? "grammar" with
  | some grammar => layer.withGrammar? grammar
  | none => return layer

/-- The layer that a text describes. -/
def read? (text : String) : Option Layer := (Toml.read? text).bind ofMembers?

end Layer

namespace Configuration

/-- The greatest bound that a file can hold. -/
def greatestBound : Nat := Nat.pow 2 63 - 1

/-- A line that gives a key its value. -/
def line (key value : String) : String := key ++ " = " ++ value ++ "\n"

/-- The text of a configuration, if its bounds fit a file. -/
def toToml? (c : Configuration) : Option String :=
  if c.grammar.maxInclusionGroups ≤ greatestBound ∧ c.grammar.maxExclusionGroups ≤ greatestBound
  then
    some (line "provider" (Toml.writeText c.provider)
      ++ (c.taxonomyFile.map fun path => line "taxonomy_file" (Toml.writeText path)).getD ""
      ++ "\n[grammar]\n"
      ++ line "max_inclusion_groups" (toString c.grammar.maxInclusionGroups)
      ++ line "max_exclusion_groups" (toString c.grammar.maxExclusionGroups))
  else none

/-- A commented file to start from. -/
def template : String := "\n".intercalate [
  "# audtarget configuration",
  "#",
  "# Locations (by precedence, lowest to highest):",
  "#   Global: ~/.config/audtarget/audtarget.toml",
  "#   Local:  ./.audtarget.toml",
  "#   Env:    AUDTARGET_* environment variables (nested keys use \"__\",",
  "#           e.g. AUDTARGET_GRAMMAR__MAX_INCLUSION_GROUPS=2)",
  "",
  "# Taxonomy provider prefixed to bare category ids (\"671901\" -> \"bluekai:671901\")",
  "# provider = \"bluekai\"",
  "",
  "# JSON object mapping category keys to display names",
  "# taxonomy_file = \"~/.config/audtarget/taxonomy.json\"",
  "",
  "[grammar]",
  "# Inclusion (OR) groups the editor may author under the root AND",
  "# max_inclusion_groups = 2",
  "",
  "# Exclusion (NOT -> OR) groups the editor may author under the root AND",
  "# max_exclusion_groups = 1",
  ""]

end Configuration

end Targeting
