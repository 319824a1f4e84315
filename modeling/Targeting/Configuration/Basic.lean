import Targeting.Grammar

/-!
# Configuration

## Main definitions

* `Configuration` — the values that can be configured, with their defaults
* `Configuration.categoryKey` — the key of a category named by its user
-/

namespace Targeting

/-- The values that can be configured. -/
structure Configuration where
  /-- The provider of categories that are named without one. -/
  provider : String := "bluekai"
  /-- The file with the display names of categories. -/
  taxonomyFile : Option String := none
  grammar : Grammar := {}
  deriving DecidableEq

namespace Configuration

/-- The key of a category: a name with a colon is the key itself, and any other is put behind the
provider. -/
def categoryKey (c : Configuration) (name : String) : String :=
  if ':' ∈ name.toList then name else c.provider ++ ":" ++ name

end Configuration

end Targeting
