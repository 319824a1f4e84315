import Targeting.Configuration.Basic

/-!
# Layers of configuration

A layer specifies some of the values. Laid over a configuration it replaces those values and leaves
the others alone.

## Main definitions

* `Layer` — a part of a configuration
* `Configuration.under` — a configuration with a layer over it
-/

namespace Targeting

/-- A part of a configuration. -/
structure Layer where
  provider : Option String := none
  taxonomyFile : Option String := none
  maxInclusionGroups : Option Nat := none
  maxExclusionGroups : Option Nat := none
  deriving DecidableEq

/-- The configuration with the values that a layer specifies in place of its own. -/
def Configuration.under (c : Configuration) (l : Layer) : Configuration where
  provider := l.provider.getD c.provider
  taxonomyFile := l.taxonomyFile.or c.taxonomyFile
  grammar :=
    { maxInclusionGroups := l.maxInclusionGroups.getD c.grammar.maxInclusionGroups
      maxExclusionGroups := l.maxExclusionGroups.getD c.grammar.maxExclusionGroups }

end Targeting
