import Targeting.Environment.Basic
import Targeting.Text.Basic
import Targeting.Unicode.Alphanumeric

/-!
# Expansion of variables and of the home directory

A path in the configuration may name variables as `$NAME`, `${NAME}` or `${NAME:-default}`, and may
begin with `~` for the home directory. Values and defaults are taken as they are and not expanded
again. A path that names an undefined variable without a default is left alone as a whole.

## Main definitions

* `Fragment` — a character that stands for itself, or a reference to a variable
* `Fragment.split` — the fragments of a text
* `Environment.expand` — a path with its variables and its home directory replaced
-/

namespace Targeting

/-- A part of a path before expansion. -/
inductive Fragment where
  | char (c : Char)
  | variable (name : String) (default : Option String)
  deriving DecidableEq

namespace Fragment

/-- The characters of a variable's name outside braces. -/
def isNameChar (c : Char) : Bool := Unicode.isAlphanumeric c || c = '_'

/-- Cuts a text at its first `:-`. -/
def cutDefault : List Char → List Char × Option (List Char)
  | [] => ([], none)
  | ':' :: '-' :: default => ([], some default)
  | c :: rest => let (name, default) := cutDefault rest; (c :: name, default)

/-- The reference with the given text between its braces. A default needs a name in front. -/
def braced (body : List Char) : Fragment :=
  match cutDefault body with
  | ([], _) => .variable (String.ofList body) none
  | (name, default) => .variable (String.ofList name) (default.map String.ofList)

/-- The fragments of a text. Two dollar signs are one that stands for itself, and so does a dollar
sign in front of neither a name nor a closed pair of braces. -/
def split : List Char → List Fragment
  | [] => []
  | '$' :: '$' :: rest => .char '$' :: split rest
  | '$' :: '{' :: rest =>
    if '}' ∈ rest then
      braced (rest.takeWhile (· ≠ '}')) :: split ((rest.dropWhile (· ≠ '}')).drop 1)
    else .char '$' :: .char '{' :: split rest
  | '$' :: c :: rest =>
    if isNameChar c then
      .variable (String.ofList (c :: rest.takeWhile isNameChar)) none
        :: split (rest.dropWhile isNameChar)
    else .char '$' :: split (c :: rest)
  | c :: rest => .char c :: split rest
termination_by text => text.length
decreasing_by
  all_goals
    have shorter := fun p : Char → Bool => (List.dropWhile_suffix p (l := rest)).length_le
    grind

/-- What a fragment stands for; nothing if its variable is undefined and has no default. -/
def expand? (env : Environment) : Fragment → Option String
  | .char c => some c.toString
  | .variable name default => (env.value? name).or default

end Fragment

namespace Environment

/-- A text with its variables replaced, unless one of them is undefined. -/
def expandVariables? (env : Environment) (text : String) : Option String :=
  ((Fragment.split text.toList).mapM (Fragment.expand? env)).map String.join

/-- A text with the home directory in place of a leading `~` that stands alone or before a
slash. -/
def expandHome (env : Environment) (text : String) : String :=
  match text.toList, env.home? with
  | ['~'], some home => home
  | '~' :: '/' :: rest, some home => home ++ String.ofList ('/' :: rest)
  | _, _ => text

/-- A path with its variables and its home directory replaced. A `~` that only a variable brought
to the front stays. -/
def expand (env : Environment) (path : String) : String :=
  match env.expandVariables? path with
  | none => path
  | some text =>
    if Text.isLedBy '~' text && !Text.isLedBy '~' path then text else env.expandHome text

end Environment

end Targeting
