import Mathlib.Data.List.Find
import Targeting.Proofs.Configuration.Keys
import Targeting.Proofs.Configuration.Setting

/-!
# Settings by environment variables

Which variable specifies a setting, and what its text means there. A variable counts if its name,
whatever its case, spells the key of the setting behind `AUDTARGET__`, with two underscores, and if it
is the last one of these. The names that users are told have one underscore there, so variables with
these names specify nothing. A text that looks like a truth value or a number is written anew when it
is read.

Variables with other keys may be in the way: one that puts a value where the table of a setting has to
be, or a table or an array where the value of a setting has to be. Of all keys that meet the path of a
setting, the one that is collected last decides, in an order that nothing fixes.

## Main definitions

* `Setting.names` — the names of the variables that specify a setting
* `Environment.IsLast`, `Environment.Decides` — a variable is the last one for a setting, and its value
  remains
* `Setting.read` — the value that the text of a variable gives a setting
* `Setting.literal?`, `Setting.IsReadLiterally` — the value that a text stands for by itself
* `Setting.documented?` — the value of the variable with the documented name

## Main results

* `Setting.ofName?_eq_key_iff` — the names with the key of a setting
* `Environment.specified?_eq_some_iff` — what is specified is what the variable that decides says
* `Setting.ofLayer_ofEnvironment_iff` — what the layer of the variables specifies
* `Environment.decides_iff` — when the order in which values are collected plays no part
* `Setting.read_eq_iff_of_literal?` — when a text is taken as it is
* `Layer.ofEnvironment_undocumented` — variables with documented names do not count
-/

namespace Targeting

/-! ### Numbers -/

/-- An integer begins with a sign or a digit. -/
theorem Reader.exists_cons_of_integer? {text : List Char} {r : Int × List Char}
    (h : integer? text = some r) :
    ∃ c rest, text = c :: rest ∧ (c = '-' ∨ c = '+' ∨ c.isDigit) := by
  cases text with
  | nil => cases h
  | cons c rest =>
    refine ⟨c, rest, rfl, ?_⟩
    by_contra hno
    obtain ⟨hminus, hplus, hdigit⟩ := by simpa only [not_or] using hno
    have hsign : sign (c :: rest) = (false, c :: rest) := by
      unfold sign
      split <;> simp_all
    have hnone : someDecimals? (c :: rest) = none := by
      simp [someDecimals?, decimals, hdigit]
    simp [integer?, hsign, hnone] at h

theorem Text.lowerChar_eq_of_isDigit {c : Char} (h : c.isDigit) : lowerChar c = c := by
  have hc : c ≠ '\u212a' := by
    rintro rfl
    cases h
  rw [lowerChar, if_neg hc]
  simp only [Char.isDigit, Bool.and_eq_true, decide_eq_true_eq] at h
  refine dif_neg ?_
  grind

namespace Scalar

variable {text : String} {n : Int}

/-- A text that spells a number is not the name of a truth value. -/
theorem lower_ne_of_integer? (h : integer? text.toList = some n) :
    Text.lower text ≠ "true" ∧ Text.lower text ≠ "false" := by
  obtain ⟨r, hr⟩ : ∃ r, Reader.integer? text.toList = some r := by
    refine Option.ne_none_iff_exists'.mp fun hnone => ?_
    rw [integer?, hnone] at h
    cases h
  obtain ⟨c, rest, hc, hfirst⟩ := Reader.exists_cons_of_integer? hr
  have hlower : Text.lowerChar c = c := by
    obtain rfl | rfl | hdigit := hfirst
    · rfl
    · rfl
    · exact Text.lowerChar_eq_of_isDigit hdigit
  have hhead : (Text.lower text).toList.head? = some c := by
    rw [Text.lower, String.toList_ofList, hc, List.map_cons, List.head?_cons, hlower]
  constructor <;>
  · intro heq
    rw [heq] at hhead
    cases hhead
    exact absurd hfirst (by decide)

theorem ofText_of_integer? (h : integer? text.toList = some n) : ofText text = .integer n := by
  obtain ⟨htrue, hfalse⟩ := lower_ne_of_integer? h
  rw [ofText, if_neg htrue, if_neg hfalse, h]

end Scalar

namespace Setting

/-- The path of a setting. -/
def path : Setting → ConfigurationPath
  | .bound role => ["grammar", (bound role).key]
  | s => [s.key]

/-- The key of the variables for a setting. -/
def variableKey (s : Setting) : String := ".".intercalate s.path

/-- The names of the variables that specify a setting, in lower case. -/
def names : Setting → List String
  | .bound role =>
    ["audtarget__grammar__" ++ (bound role).key, "audtarget__grammar." ++ (bound role).key]
  | s => ["audtarget__" ++ s.key]

/-- The name of the variable for a setting that users are told. -/
def documentedName : Setting → String
  | .provider => "AUDTARGET_PROVIDER"
  | .taxonomyFile => "AUDTARGET_TAXONOMY_FILE"
  | .bound .inclusion => "AUDTARGET_GRAMMAR__MAX_INCLUSION_GROUPS"
  | .bound .exclusion => "AUDTARGET_GRAMMAR__MAX_EXCLUSION_GROUPS"

/-- The names of variables that users are told. -/
def documentedNames : List String :=
  [provider, taxonomyFile, bound .inclusion, bound .exclusion].map documentedName

theorem steps_variableKey (s : Setting) :
    VariableKey.steps s.variableKey = s.path.map .member := by
  rcases s with _ | _ | (_ | _) <;> decide +kernel

/-- No other key leads to the same place. -/
theorem steps_eq_iff {s : Setting} {key : String} :
    VariableKey.steps key = s.path.map .member ↔ key = s.variableKey := by
  constructor
  · exact VariableKey.eq_of_steps
  · rintro rfl
    exact s.steps_variableKey

theorem meets_variableKey (s : Setting) :
    VariableKey.meets (VariableKey.steps s.variableKey) s.path = true := by
  rcases s with _ | _ | (_ | _) <;> decide +kernel

theorem ofName?_eq_key (s : Setting) :
    ∀ name ∈ s.names, Text.lower name = name ∧
      VariableKey.ofName? name = some s.variableKey := by
  rcases s with _ | _ | (_ | _) <;> decide +kernel

/-- A variable has the key of a setting if and only if it has one of its names, in any case. -/
theorem ofName?_eq_key_iff {s : Setting} {name : String} :
    VariableKey.ofName? name = some s.variableKey ↔ Text.lower name ∈ s.names := by
  have hpoint (s : Setting) : '.' ∉ s.key.toList := by
    rcases s with _ | _ | (_ | _) <;> decide +kernel
  constructor
  · intro h
    rcases s with _ | _ | role
    · exact List.mem_singleton.mpr (VariableKey.lower_of_ofName?_one (hpoint .provider) h)
    · exact List.mem_singleton.mpr (VariableKey.lower_of_ofName?_one (hpoint .taxonomyFile) h)
    · rw [variableKey, path, String.intercalate_cons_cons, String.intercalate_singleton] at h
      simpa [names, String.append_assoc] using
        VariableKey.lower_of_ofName?_two (by decide) (hpoint (.bound role)) h
  · intro h
    obtain ⟨hlower, hkey⟩ := s.ofName?_eq_key _ h
    exact (VariableKey.ofName?_congr hlower.symm).trans hkey

/-- The documented names lack an underscore, so they have no key at all. -/
theorem ofName?_documentedName (s : Setting) :
    VariableKey.ofName? s.documentedName = none := by
  rcases s with _ | _ | (_ | _) <;> decide +kernel

/-! ### Values -/

/-- The value that the value of a variable gives a setting. -/
def ofScalar : Setting → Scalar → Option SettingValue
  | .bound _, x => x.bound?.map .bound
  | _, x => some (.text x.render)

/-- The value that the text of a variable gives a setting, once it has been taken for a truth value
or a number where it looks like one. -/
def read (s : Setting) (text : String) : Option SettingValue := s.ofScalar (Scalar.ofText text)

/-- The value that the text of a variable stands for by itself: a text as it is, a bound if it is a
decimal number within 64 bits. -/
def literal? : Setting → String → Option SettingValue
  | .bound _, text =>
    ((Scalar.integer? text.toList).filter (0 ≤ ·)).map fun n => .bound n.toNat
  | _, text => some (.text text)

/-- Reading does not change the text of a setting that is a text. -/
def IsReadLiterally : Setting → String → Prop
  | .bound _, _ => True
  | _, text => (Scalar.ofText text).render = text

/-- What a text stands for by itself is what is read, if and only if reading does not change it. -/
theorem read_eq_iff_of_literal? {s : Setting} {text : String} {v : SettingValue}
    (h : s.literal? text = some v) : s.read text = some v ↔ s.IsReadLiterally text := by
  rcases s with _ | _ | role
  · cases h
    simp [read, ofScalar, IsReadLiterally]
  · cases h
    simp [read, ofScalar, IsReadLiterally]
  · obtain ⟨n, hn, rfl⟩ := Option.map_eq_some_iff.mp h
    obtain ⟨hinteger, hpos⟩ := Option.filter_eq_some_iff.mp hn
    refine iff_of_true ?_ trivial
    rw [read, Scalar.ofText_of_integer? hinteger, ofScalar, Scalar.bound?,
      if_pos (by simpa using hpos)]
    rfl

/-- The value that the variable with the documented name stands for. -/
def documented? (s : Setting) (env : Environment) : Option SettingValue :=
  (env.value? s.documentedName).bind s.literal?

end Setting

/-! ### Which variable decides -/

namespace Environment

open VariableKey (meets steps)

variable {env : Environment} {s : Setting} {x : Scalar} {key name text : String}

/-- A variable has one of the names of a setting, and none that is listed behind it does. -/
structure IsLast (env : Environment) (s : Setting) (name text : String) : Prop where
  specifies : Text.lower name ∈ s.names
  last : ∃ before after, env.bindings = before ++ (name, text) :: after ∧
    ∀ b ∈ after, Text.lower b.1 ∉ s.names

/-- A variable decides a setting: it is the last one for it, and no value that is collected after that
of the setting takes its place. -/
structure Decides (env : Environment) (s : Setting) (name text : String) : Prop
    extends env.IsLast s name text where
  remains : ∃ before after, env.keyOrder.arrange env.keys = before ++ s.variableKey :: after ∧
    ∀ key ∈ after, meets (steps key) s.path = false

/-- No variable has another key than that of a setting that meets the path of the setting. -/
def IsUnambiguous (env : Environment) (s : Setting) : Prop :=
  ∀ key ∈ env.keys, meets (steps key) s.path = true → key = s.variableKey

theorem IsLast.mem (h : env.IsLast s name text) : (name, text) ∈ env.bindings := by
  obtain ⟨before, after, hbindings, -⟩ := h.last
  rw [hbindings]
  exact List.mem_append_right _ List.mem_cons_self

theorem mem_keys : key ∈ env.keys ↔ ∃ b ∈ env.bindings, VariableKey.ofName? b.1 = some key := by
  rw [keys, List.mem_eraseDups, List.mem_filterMap]

/-- The text for the key of a setting is that of the last variable for the setting. -/
theorem text?_eq_some_iff : env.text? s.variableKey = some text ↔ ∃ name, env.IsLast s name text := by
  simp only [text?, Option.map_eq_some_iff, findRev?_eq_some_iff, decide_eq_true_eq,
    decide_eq_false_iff_not, Setting.ofName?_eq_key_iff]
  constructor
  · rintro ⟨⟨name, _⟩, ⟨hname, hlast⟩, rfl⟩
    exact ⟨name, hname, hlast⟩
  · rintro ⟨name, hname, hlast⟩
    exact ⟨(name, text), ⟨hname, hlast⟩, rfl⟩

/-- For each key there is a variable. -/
theorem isSome_text? (h : key ∈ env.keyOrder.arrange env.keys) : (env.text? key).isSome := by
  obtain ⟨b, hb, hkey⟩ := mem_keys.mp ((env.keyOrder.perm _).mem_iff.mp h)
  rw [text?, Option.isSome_map]
  exact isSome_findRev? hb (decide_eq_true hkey)

/-- Of the keys that meet a path the one that is collected last decides. -/
theorem findRev?_entries (env : Environment) (path : ConfigurationPath) :
    (env.entries.findRev? fun e => meets (steps e.1) path)
      = ((env.keyOrder.arrange env.keys).findRev? fun key => meets (steps key) path).bind
          fun key => (env.text? key).map fun text => (key, Scalar.ofText text) := by
  rw [entries, List.findRev?_eq_find?_reverse, ← List.filterMap_reverse, List.find?_filterMap,
    List.findRev?_eq_find?_reverse]
  refine congrArg (Option.bind · _) (List.find?_congr fun key hkey => ?_)
  obtain ⟨text, htext⟩ := Option.isSome_iff_exists.mp (isSome_text? (List.mem_reverse.mp hkey))
  rw [htext, Option.map_some, Option.any_some]

/-- What is specified for a setting is the value of the variable that decides it. -/
theorem specified?_eq_some_iff :
    env.specified? s.path = some x ↔
      ∃ name text, env.Decides s name text ∧ Scalar.ofText text = x := by
  rw [specified?, collected, Collected.scalarAt?_foldl_put, findRev?_entries]
  constructor
  · intro h
    cases hfound : ((env.keyOrder.arrange env.keys).findRev? fun key => meets (steps key) s.path).bind
        fun key => (env.text? key).map fun text => (key, Scalar.ofText text) with
    | none =>
      -- before the first value is collected the topmost table is empty
      rw [hfound] at h
      rcases s with _ | _ | role <;> cases h
    | some e =>
      obtain ⟨key, hkey, he⟩ := Option.bind_eq_some_iff.mp hfound
      obtain ⟨text, htext, rfl⟩ := Option.map_eq_some_iff.mp he
      rw [hfound] at h
      obtain ⟨hown, hx⟩ := Option.ite_none_right_eq_some.mp h
      cases hx
      obtain rfl := Setting.steps_eq_iff.mp hown
      obtain ⟨name, hlast⟩ := text?_eq_some_iff.mp htext
      exact ⟨name, text, ⟨hlast, (findRev?_eq_some_iff.mp hkey).2⟩, rfl⟩
  · rintro ⟨name, text, ⟨hlast, hremains⟩, rfl⟩
    have hkey : (env.keyOrder.arrange env.keys).findRev? (fun key => meets (steps key) s.path)
        = some s.variableKey := findRev?_eq_some_iff.mpr ⟨s.meets_variableKey, hremains⟩
    rw [hkey, Option.bind_some, text?_eq_some_iff.mpr ⟨name, hlast⟩]
    exact if_pos s.steps_variableKey

/-- Where no other variable is in the way, the last variable for a setting decides it, in whatever
order the values are collected. -/
theorem decides_iff (h : env.IsUnambiguous s) : env.Decides s name text ↔ env.IsLast s name text := by
  refine ⟨Decides.toIsLast, fun hlast => ⟨hlast, ?_⟩⟩
  have hmem : s.variableKey ∈ env.keyOrder.arrange env.keys :=
    (env.keyOrder.perm _).mem_iff.mpr
      (mem_keys.mpr ⟨_, hlast.mem, Setting.ofName?_eq_key_iff.mpr hlast.specifies⟩)
  obtain ⟨key, hkey⟩ := Option.isSome_iff_exists.mp
    (isSome_findRev? (p := fun key => meets (steps key) s.path) hmem s.meets_variableKey)
  -- whatever key meets the path last, it is that of the setting
  obtain ⟨hmeets, before, after, harrange, hafter⟩ := findRev?_eq_some_iff.mp hkey
  have hkeys : key ∈ env.keys := (env.keyOrder.perm _).mem_iff.mp
    (harrange ▸ List.mem_append_right before List.mem_cons_self)
  obtain rfl := h key hkeys hmeets
  exact ⟨before, after, harrange, hafter⟩

-- a value that belongs below a setting takes its place, unless it is collected before
example : specified? { bindings := [("AUDTARGET__PROVIDER", "a"), ("AUDTARGET__PROVIDER__X", "b")] }
    ["provider"] = none := by
  decide +kernel

example : specified?
    { bindings := [("AUDTARGET__PROVIDER", "a"), ("AUDTARGET__PROVIDER__X", "b")]
      keyOrder := ⟨List.reverse, List.reverse_perm⟩ }
    ["provider"] = some (.text "a") := by
  decide +kernel

end Environment

/-! ### The layer of the variables -/

namespace Setting

variable {s : Setting} {env : Environment}

theorem ofLayer_ofEnvironment (s : Setting) (env : Environment) :
    s.ofLayer (Layer.ofEnvironment env) = (env.specified? s.path).bind s.ofScalar := by
  rcases s with _ | _ | (_ | _)
  · simp only [ofLayer, Layer.ofEnvironment, Option.map_map]
    exact Option.map_eq_bind
  · simp only [ofLayer, Layer.ofEnvironment, Option.map_map]
    exact Option.map_eq_bind
  · exact Option.map_bind ..
  · exact Option.map_bind ..

/-- The variables specify what is read from the one that decides. -/
theorem ofLayer_ofEnvironment_iff {v : SettingValue} :
    s.ofLayer (Layer.ofEnvironment env) = some v ↔
      ∃ name text, env.Decides s name text ∧ s.read text = some v := by
  simp only [ofLayer_ofEnvironment, Option.bind_eq_some_iff, Environment.specified?_eq_some_iff]
  constructor
  · rintro ⟨x, ⟨name, text, hdecides, rfl⟩, hv⟩
    exact ⟨name, text, hdecides, hv⟩
  · rintro ⟨name, text, hdecides, hv⟩
    exact ⟨_, ⟨name, text, hdecides, rfl⟩, hv⟩

/-- If no variable has one of the names of a setting, in any case, the variables do not specify
it. -/
theorem ofLayer_ofEnvironment_eq_none (h : ∀ b ∈ env.bindings, Text.lower b.1 ∉ s.names) :
    s.ofLayer (Layer.ofEnvironment env) = none := by
  refine Option.eq_none_iff_forall_ne_some.mpr fun v hv => ?_
  obtain ⟨name, text, hdecides, -⟩ := ofLayer_ofEnvironment_iff.mp hv
  exact h _ hdecides.mem hdecides.specifies

end Setting

/-- The variables without those that have a documented name. -/
def Environment.undocumented (env : Environment) : Environment :=
  { env with bindings := env.bindings.filter (·.1 ∉ Setting.documentedNames) }

/-- A variable with a key has no documented name. -/
theorem Environment.not_mem_documentedNames {name key : String}
    (h : VariableKey.ofName? name = some key) : name ∉ Setting.documentedNames := by
  intro hname
  obtain ⟨s, -, rfl⟩ := List.mem_map.mp hname
  cases (s.ofName?_documentedName).symm.trans h

/-- The variables with the documented names have no part in what the variables specify. -/
theorem Layer.ofEnvironment_undocumented (env : Environment) :
    Layer.ofEnvironment env.undocumented = Layer.ofEnvironment env := by
  have hkeys : env.undocumented.keys = env.keys := by
    rw [Environment.keys, Environment.keys, Environment.undocumented, List.filterMap_filter]
    refine congrArg List.eraseDups (List.filterMap_congr fun b _ => ?_)
    split
    · rfl
    · next hname =>
      cases hkey : VariableKey.ofName? b.1 with
      | none => rfl
      | some key =>
        exact absurd (decide_eq_true (Environment.not_mem_documentedNames hkey)) hname
  have htext : env.undocumented.text? = env.text? := by
    funext key
    rw [Environment.text?, Environment.text?, Environment.undocumented,
      List.findRev?_eq_find?_reverse, List.findRev?_eq_find?_reverse, ← List.filter_reverse,
      List.find?_filter]
    refine congrArg (Option.map _) (List.find?_congr fun b _ => ?_)
    simpa using fun hkey => Environment.not_mem_documentedNames hkey
  have hentries : env.undocumented.entries = env.entries := by
    rw [Environment.entries, Environment.entries, hkeys, htext]
    rfl
  simp only [Layer.ofEnvironment, Environment.specified?, Environment.collected, hentries]

end Targeting
