import Targeting.Configuration.Load

/-!
# Settings one by one

A configuration has four settings. Laying a layer over a configuration treats each of them alone:
the layer's value counts if the layer has one, whatever it says of the others. So in a pile of layers
a setting has its value from the highest layer that specifies it.

## Main definitions

* `Setting`, `SettingValue` — a setting, and what it can be set to
* `Setting.ofLayer`, `Setting.inForce` — what a layer specifies, and what a configuration holds
* `Setting.inDocument` — what a document says of a setting

## Main results

* `Setting.inForce_layered` — the highest layer that specifies a setting decides it
* `Setting.inDocument_eq` — the layer of a document specifies what the document says
-/

namespace Targeting

/-- What can be configured. -/
inductive Setting where
  | provider
  | taxonomyFile
  | bound (role : GroupRole)
  deriving DecidableEq

/-- What a setting can be set to: a text, or a number of groups. -/
inductive SettingValue where
  | text (s : String)
  | bound (n : Nat)
  deriving DecidableEq

/-- The value as a document holds it. -/
def SettingValue.toToml : SettingValue → Toml.Value
  | .text s => .string s
  | .bound n => .integer n

/-- The lowest layer, which specifies what holds without any configuration. -/
def Layer.defaults : Layer where
  provider := some "bluekai"
  taxonomyFile := none
  maxInclusionGroups := some 2
  maxExclusionGroups := some 1

namespace Setting

variable {l : Layer} {members : Toml.Members}

/-- The value that a layer specifies for a setting. -/
def ofLayer : Setting → Layer → Option SettingValue
  | .provider, l => l.provider.map .text
  | .taxonomyFile, l => l.taxonomyFile.map .text
  | .bound .inclusion, l => l.maxInclusionGroups.map .bound
  | .bound .exclusion, l => l.maxExclusionGroups.map .bound

/-- The value of a setting in a configuration. -/
def inForce : Setting → Configuration → Option SettingValue
  | .provider, c => some (.text c.provider)
  | .taxonomyFile, c => c.taxonomyFile.map .text
  | .bound role, c => some (.bound (c.grammar.limit role))

/-- What becomes of a value in the end: the path of the taxonomy is expanded. -/
def settled (env : Environment) : Setting → SettingValue → SettingValue
  | .taxonomyFile, .text path => .text (env.expand path)
  | _, v => v

/-! ### Layers over a configuration -/

theorem ofLayer_empty (s : Setting) : s.ofLayer {} = none := by
  rcases s with _ | _ | (_ | _) <;> rfl

theorem inForce_empty (s : Setting) : s.inForce {} = s.ofLayer Layer.defaults := by
  rcases s with _ | _ | (_ | _) <;> rfl

/-- A layer decides the settings that it specifies, and no others. -/
theorem inForce_under (s : Setting) (c : Configuration) (l : Layer) :
    s.inForce (c.under l) = (s.ofLayer l).or (s.inForce c) := by
  rcases s with _ | _ | (_ | _)
  · cases h : l.provider <;> simp [inForce, ofLayer, Configuration.under, h]
  · cases h : l.taxonomyFile <;> simp [inForce, ofLayer, Configuration.under, h]
  · cases h : l.maxInclusionGroups <;>
      simp [inForce, ofLayer, Configuration.under, Grammar.limit, h]
  · cases h : l.maxExclusionGroups <;>
      simp [inForce, ofLayer, Configuration.under, Grammar.limit, h]

theorem inForce_foldl_under (s : Setting) (layers : List Layer) (c : Configuration) :
    s.inForce (layers.foldl Configuration.under c)
      = (layers.reverse.findSome? s.ofLayer).or (s.inForce c) := by
  induction layers generalizing c with
  | nil => rfl
  | cons l layers ih =>
    rw [List.foldl_cons, ih, inForce_under, List.reverse_cons, List.findSome?_append,
      List.findSome?_singleton, Option.or_assoc]

/-- The highest layer that specifies a setting decides it: the variables, then the files from the
last to the first, then the defaults. -/
theorem inForce_layered (s : Setting) (env : Environment) (files : List Layer) :
    s.inForce (Configuration.layered env files)
      = ((Layer.ofEnvironment env :: files.reverse ++ [Layer.defaults]).findSome? s.ofLayer).map
          (s.settled env) := by
  have hpile := s.inForce_foldl_under (files ++ [Layer.ofEnvironment env]) {}
  rw [inForce_empty, List.reverse_append, List.reverse_singleton, List.singleton_append,
    ← List.findSome?_singleton (f := s.ofLayer), ← List.findSome?_append] at hpile
  rw [← hpile, Configuration.layered]
  rcases s with _ | _ | role
  · rfl
  · -- only the path of the taxonomy is changed after the layers
    simp only [inForce, Option.map_map]
    rfl
  · rfl

/-! ### Documents -/

/-- The key of a setting in the table that holds it. -/
def key : Setting → String
  | .provider => "provider"
  | .taxonomyFile => "taxonomy_file"
  | .bound .inclusion => "max_inclusion_groups"
  | .bound .exclusion => "max_exclusion_groups"

/-- Where a bound stands in an array of bounds. -/
def place : GroupRole → Nat
  | .inclusion => 0
  | .exclusion => 1

/-- What a document says of a setting. The bounds stand in a table or an array of their own. -/
def inDocument (members : Toml.Members) : Setting → Option Toml.Value
  | .bound role =>
    match members.get? "grammar" with
    | some (.table _ bounds) => Toml.Members.get? bounds (bound role).key
    | some (.array bounds) => bounds[place role]?
    | _ => none
  | s => members.get? s.key

theorem eq_of_ofText? {value : Toml.Value} {s : String} (h : Layer.ofText? value = some s) :
    value = (SettingValue.text s).toToml := by
  cases value <;> cases h
  rfl

theorem eq_of_ofBound? {value : Toml.Value} {n : Nat} (h : Layer.ofBound? value = some n) :
    value = (SettingValue.bound n).toToml := by
  cases value with
  | integer i =>
    obtain ⟨hi, hn⟩ := Option.ite_none_right_eq_some.mp h
    cases hn
    rw [SettingValue.toToml, Int.toNat_of_nonneg hi]
  | string | float | boolean | moment | array | table | tables => cases h

/-- What is read of a key that may be missing is what the document says, if the reader of values
takes nothing for something else. -/
theorem eq_of_optional? {α : Type} {read? : Toml.Value → Option α} {setting : α → SettingValue}
    (hread : ∀ value a, read? value = some a → value = (setting a).toToml)
    {said : Option Toml.Value} {a : Option α} (h : Layer.optional? read? said = some a) :
    said = (a.map setting).map SettingValue.toToml := by
  cases said with
  | none =>
    cases h
    rfl
  | some value =>
    obtain ⟨a, ha, rfl⟩ := Option.map_eq_some_iff.mp h
    exact congrArg some (hread value a ha)

/-- A layer that takes over two bounds specifies them and keeps its other settings. -/
theorem withBounds?_eq_some {l' : Layer} (said : GroupRole → Option Toml.Value)
    (h : l.withBounds? (said .inclusion) (said .exclusion) = some l') :
    l'.provider = l.provider ∧ l'.taxonomyFile = l.taxonomyFile ∧
      ∀ role, said role = ((bound role).ofLayer l').map SettingValue.toToml := by
  obtain ⟨n, hn, h⟩ := Option.bind_eq_some_iff.mp h
  obtain ⟨m, hm, h⟩ := Option.bind_eq_some_iff.mp h
  cases h
  refine ⟨rfl, rfl, fun role => ?_⟩
  cases role with
  | inclusion => exact eq_of_optional? (fun _ _ => eq_of_ofBound?) hn
  | exclusion => exact eq_of_optional? (fun _ _ => eq_of_ofBound?) hm

/-- A layer that specified no bounds and takes over those of a document specifies what the document
says of them, and keeps its other settings. -/
theorem withGrammar?_eq_some {l' : Layer} {grammar : Toml.Value}
    (hbounds : l.maxInclusionGroups = none ∧ l.maxExclusionGroups = none)
    (hgrammar : members.get? "grammar" = some grammar) (h : l.withGrammar? grammar = some l') :
    l'.provider = l.provider ∧ l'.taxonomyFile = l.taxonomyFile ∧
      ∀ role, (bound role).inDocument members
        = ((bound role).ofLayer l').map SettingValue.toToml := by
  simp only [inDocument, hgrammar]
  cases grammar with
  | table form bounds =>
    exact withBounds?_eq_some (fun role => Toml.Members.get? bounds (bound role).key) h
  | array bounds => exact withBounds?_eq_some (fun role => bounds[place role]?) h
  | moment m =>
    cases h
    refine ⟨rfl, rfl, fun role => ?_⟩
    cases role <;> simp [ofLayer, hbounds]
  | string | integer | float | boolean | tables => cases h

/-- The layer of a document specifies exactly what the document says. -/
theorem inDocument_eq (h : Layer.ofMembers? members = some l) (s : Setting) :
    s.inDocument members = (s.ofLayer l).map SettingValue.toToml := by
  obtain ⟨provider, hprovider, h⟩ := Option.bind_eq_some_iff.mp h
  obtain ⟨taxonomyFile, htaxonomy, h⟩ := Option.bind_eq_some_iff.mp h
  obtain ⟨hp, ht, hbounds⟩ : l.provider = provider ∧ l.taxonomyFile = taxonomyFile ∧
      ∀ role, (bound role).inDocument members
        = ((bound role).ofLayer l).map SettingValue.toToml := by
    cases hgrammar : members.get? "grammar" with
    | none =>
      rw [hgrammar] at h
      cases h
      refine ⟨rfl, rfl, fun role => ?_⟩
      rw [inDocument, hgrammar]
      cases role <;> rfl
    | some grammar =>
      rw [hgrammar] at h
      exact withGrammar?_eq_some ⟨rfl, rfl⟩ hgrammar h
  cases s with
  | provider =>
    rw [ofLayer, hp]
    exact eq_of_optional? (fun _ _ => eq_of_ofText?) hprovider
  | taxonomyFile =>
    rw [ofLayer, ht]
    exact eq_of_optional? (fun _ _ => eq_of_ofText?) htaxonomy
  | bound role => exact hbounds role

end Setting

end Targeting
