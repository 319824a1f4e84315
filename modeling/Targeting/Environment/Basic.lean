/-!
# The environment of a process

## Main definitions

* `KeyOrder` — an order in which the keys of a table are gone through
* `Environment` — the variables of a process with their values, and what else is outside its control
* `Environment.value?` — the value of a variable
* `Environment.home?` — the home directory of the user
-/

namespace Targeting

/-- An order in which the keys of a table without an order of its own are gone through. Nothing more
is known of it than that each key gets its turn. -/
structure KeyOrder where
  arrange : List String → List String
  perm : ∀ keys, (arrange keys).Perm keys

/-- What a process finds around it: variables with their values, in the order in which the system
lists them, the home directory in the account of the user, and the order in which it happens to go
through tables. -/
structure Environment where
  bindings : List (String × String) := []
  accountHome : Option String := none
  keyOrder : KeyOrder := ⟨id, fun _ => .refl _⟩

namespace Environment

/-- The value of a variable, if it is defined: what stands behind the name and an equals sign in one of
the definitions, which are texts of that form. So a name with an equals sign asks for the rest of a
value that begins in a certain way. -/
def value? (env : Environment) (name : String) : Option String :=
  env.bindings.findSome? fun (defined, value) =>
    ((name ++ "=").toList.isPrefixOf? (defined ++ "=" ++ value).toList).map String.ofList

/-- The home directory of the user, from the variable for it or else from the account. An empty text
names no directory. -/
def home? (env : Environment) : Option String :=
  ((env.value? "HOME").filter (!·.isEmpty)).or (env.accountHome.filter (!·.isEmpty))

end Environment

end Targeting
