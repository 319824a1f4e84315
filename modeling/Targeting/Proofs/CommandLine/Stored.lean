import Mathlib.Data.List.Basic
import Targeting.Proofs.CommandLine.Access

/-!
# What a change does to the stored expression

The effect of a change is told on the stored expression alone, without sessions and trees: which of its
lists gets or loses which item. A change that succeeds leaves in its file the expression that this
leads to, and the file can be loaded again.

## Main definitions

* `Json.alterOperands?`, `alterNth?` — an expression with other operands, a list with another item
* `Change.applyTo?` — the expression that a change leads to
* `Program.Stores` — a file holds this expression

## Main results

* `GroupChoice.alterGroup?_toJson` — the group of a choice is found among the operands
* `Change.applyTo?_map_toJson` — on the expressions of groups, it is what the change does to them
* `Session.IsEditing.exists_read?_write` — groups that are saved are read again
* `Program.stores_what_changes_say` — what is stored after a change that succeeds
-/

namespace Targeting

/-! ### Other items -/

/-- An object with the given key and a list, with another list in its place. -/
def Json.alterOperands? (tag : String) (f : List Json → Option (List Json)) : Json → Option Json
  | .object [(key, .array items)] =>
    if key = tag then (f items).map fun items => .object [(key, .array items)] else none
  | _ => none

/-- Whether a value is an object with the given key alone. -/
def Json.hasTag (tag : String) : Json → Bool
  | .object [(key, _)] => key = tag
  | _ => false

/-- A list with another item in place of the one that has some property and a number of others with
this property in front of it. -/
def alterNth? {α : Type} (p : α → Bool) (f : α → Option α) : Nat → List α → Option (List α)
  | _, [] => none
  | n, a :: as =>
    if p a then
      match n with
      | 0 => (f a).map fun a => a :: as
      | n + 1 => (alterNth? p f n as).map fun as => a :: as
    else (alterNth? p f n as).map fun as => a :: as

/-- The stored expression of groups. -/
def Outline.toJson (o : Outline) : Json := (Formula.ofGroups o).toJson

namespace CommandLine

/-- A category in a stored expression. -/
def categoryItem (key : String) : Json := .object [("category", .string key)]

/-- A group without categories in a stored expression. -/
def emptyGroup : GroupRole → Json
  | .inclusion => .object [("or", .array [])]
  | .exclusion => .object [("not", .array [.object [("or", .array [])]])]

/-- The expression that is created if there is none. -/
def firstExpression : Json := .object [("and", .array [.object [("or", .array [])]])]

/-- A disjunction of categories in a stored expression with other categories. -/
def alterCategories? (f : List Json → List Json) : Json → Option Json :=
  Json.alterOperands? "or" fun items => some (f items)

/-- A group in a stored expression with other categories. -/
def alterGroup? (f : List Json → List Json) : GroupRole → Json → Option Json
  | .inclusion => alterCategories? f
  | .exclusion => Json.alterOperands? "not" fun
    | [inner] => (alterCategories? f inner).map fun inner => [inner]
    | _ => none

/-- The expression with other categories in the group that a choice stands for, if there is this
group. -/
def GroupChoice.alterGroup? (choice : GroupChoice) (f : List Json → List Json) :
    Json → Option Json :=
  Json.alterOperands? "and" fun items =>
    match choice with
    | .inclusion 0 => none
    | .inclusion (n + 1) =>
      alterNth? (Json.hasTag "or") (CommandLine.alterGroup? f .inclusion) n items
    | .exclusion => alterNth? (Json.hasTag "not") (CommandLine.alterGroup? f .exclusion) 0 items

namespace Change

/-- The stored expression that a change leads to, if the group that it is for exists. -/
def applyTo? (c : Configuration) : Change → Option Json → Option Json
  | .enable, e => some (e.getD firstExpression)
  | .addGroup .inclusion, none => some firstExpression
  | .addGroup role, e =>
    (e.getD firstExpression).alterOperands? "and" fun items => some (items ++ [emptyGroup role])
  | .addCategory name choice, e =>
    let item := categoryItem (c.categoryKey name)
    choice.alterGroup? (fun items => if item ∈ items then items else items ++ [item])
      (e.getD firstExpression)
  | .removeCategory name choice, e =>
    e.bind (choice.alterGroup? fun items => items.erase (categoryItem (c.categoryKey name)))

end Change

/-! ### Groups -/

variable {f : List String → List String} {F : List Json → List Json} {o : Outline}

theorem toJson_ofKeys (keys : List String) :
    (Formula.ofKeys keys).toJson = .object [("or", .array (keys.map categoryItem))] := by
  rw [Formula.ofKeys, Formula.toJson, Formula.toJsonAll_eq_map, List.map_map]
  rfl

theorem toJson_exclusion (keys : List String) :
    (Formula.ofGroup (.exclusion, keys)).toJson
      = .object [("not", .array [(Formula.ofKeys keys).toJson])] := by
  rw [Formula.ofGroup, Formula.toJson, Formula.toJsonAll_eq_map]
  rfl

theorem toJson_outline (o : Outline) :
    o.toJson = .object [("and", .array (o.map fun shape => (Formula.ofGroup shape).toJson))] := by
  rw [Outline.toJson, Formula.ofGroups, Formula.toJson, Formula.toJsonAll_eq_map, List.map_map]
  rfl

theorem categoryItem_injective : Function.Injective categoryItem := by
  intro key key' h
  simpa [categoryItem] using h

theorem map_insertKey (key : String) (keys : List String) :
    (insertKey key keys).map categoryItem
      = if categoryItem key ∈ keys.map categoryItem then keys.map categoryItem
        else keys.map categoryItem ++ [categoryItem key] := by
  have hmem := List.mem_map_of_injective categoryItem_injective (a := key) (l := keys)
  by_cases hkey : key ∈ keys
  · rw [insertKey, if_pos hkey, if_pos (hmem.mpr hkey)]
  · rw [insertKey, if_neg hkey, if_neg (mt hmem.mp hkey), List.map_append]
    rfl

section AlterNth

variable {α : Type} {p : α → Bool} {a : α}

theorem alterNth?_cons_of_neg (h : p a = false) (g : α → Option α) (n : Nat) (as : List α) :
    alterNth? p g n (a :: as) = (alterNth? p g n as).map fun as => a :: as := by
  cases n <;> rw [alterNth?, h, if_neg Bool.false_ne_true]

theorem alterNth?_cons_zero (h : p a = true) (g : α → Option α) (as : List α) :
    alterNth? p g 0 (a :: as) = (g a).map fun a => a :: as := by
  rw [alterNth?, if_pos h]

theorem alterNth?_cons_succ (h : p a = true) (g : α → Option α) (n : Nat) (as : List α) :
    alterNth? p g (n + 1) (a :: as) = (alterNth? p g n as).map fun as => a :: as := by
  rw [alterNth?, if_pos h]

end AlterNth

/-- The categories of a group change as its keys do. -/
theorem alterGroup?_toJson (hF : ∀ keys, F (keys.map categoryItem) = (f keys).map categoryItem)
    (role : GroupRole) (keys : List String) :
    alterGroup? F role (Formula.ofGroup (role, keys)).toJson
      = some (Formula.ofGroup (role, f keys)).toJson := by
  have hinclusion : alterCategories? F (Formula.ofKeys keys).toJson
      = some (Formula.ofKeys (f keys)).toJson := by
    rw [toJson_ofKeys, toJson_ofKeys, alterCategories?, Json.alterOperands?, if_pos rfl, hF]
    rfl
  cases role with
  | inclusion => exact hinclusion
  | exclusion =>
    rw [toJson_exclusion, alterGroup?, Json.alterOperands?, if_pos rfl]
    dsimp only
    rw [hinclusion, toJson_exclusion]
    rfl

/-- In the list of all groups, the one with a number of others of its role in front of it changes. -/
theorem alterNth?_map (hF : ∀ keys, F (keys.map categoryItem) = (f keys).map categoryItem)
    {role : GroupRole} {p : Json → Bool}
    (hp : ∀ shape, p (Formula.ofGroup shape).toJson = decide (shape.1 = role)) (n : Nat)
    (o : Outline) :
    alterNth? p (alterGroup? F role) n (o.map fun shape => (Formula.ofGroup shape).toJson)
      = (o.filter fun shape => shape.1 = role)[n]?.map fun _ =>
        (o.alter role (fun keys => some (f keys)) n).map fun shape =>
          (Formula.ofGroup shape).toJson := by
  induction o generalizing n with
  | nil => rfl
  | cons shape o ih =>
    rw [List.map_cons]
    by_cases hrole : shape.1 = role
    · have hfirst := (hp shape).trans (decide_eq_true hrole)
      rw [List.filter_cons_of_pos (by simpa using hrole)]
      cases n with
      | zero =>
        obtain ⟨_, keys⟩ := shape
        cases hrole
        rw [alterNth?_cons_zero hfirst, alterGroup?_toJson hF, Outline.alter_cons_zero _ _ rfl]
        rfl
      | succ n =>
        rw [alterNth?_cons_succ hfirst, ih, Outline.alter_cons_succ _ _ _ hrole,
          List.getElem?_cons_succ, Option.map_map]
        rfl
    · have hfirst := (hp shape).trans (decide_eq_false hrole)
      rw [List.filter_cons_of_neg (by simpa using hrole), alterNth?_cons_of_neg hfirst, ih,
        Outline.alter_cons_of_ne _ _ _ hrole, Option.map_map]
      rfl

/-- The categories of the group that a choice stands for change as its keys do. -/
theorem GroupChoice.alterGroup?_toJson
    (hF : ∀ keys, F (keys.map categoryItem) = (f keys).map categoryItem) (choice : GroupChoice)
    (o : Outline) :
    choice.alterGroup? F o.toJson
      = (Change.changedAt? choice f o).map Outline.toJson := by
  -- the group of a role with others of the role in front of it
  have hplace : ∀ (place : Place) (p : Json → Bool),
      (∀ shape, p (Formula.ofGroup shape).toJson = decide (shape.1 = place.role)) →
      (alterNth? p (CommandLine.alterGroup? F place.role) place.rank
        (o.map fun shape => (Formula.ofGroup shape).toJson)).map
          (fun items => Json.object [("and", .array items)])
        = ((o.keysAt? place).map fun _ =>
            o.alter place.role (fun keys => some (f keys)) place.rank).map
              Outline.toJson := by
    intro place p hp
    rw [alterNth?_map hF hp, Outline.keysAt?, Option.map_map, Option.map_map, Option.map_map]
    congr 1
    funext keys
    exact (toJson_outline _).symm
  rw [toJson_outline, GroupChoice.alterGroup?, Json.alterOperands?, if_pos rfl]
  cases choice with
  | inclusion number =>
    cases number with
    | zero => rfl
    | succ n => exact hplace (.inclusion n) (Json.hasTag "or") (by rintro ⟨_ | _, keys⟩ <;> rfl)
  | exclusion => exact hplace .exclusion (Json.hasTag "not") (by rintro ⟨_ | _, keys⟩ <;> rfl)

namespace Change

/-- An expression that is absent counts as one with a first group. -/
theorem getD_map_toJson (o : Option Outline) :
    (o.map Outline.toJson).getD firstExpression
      = Outline.toJson (o.getD [(.inclusion, [])]) := by
  cases o with
  | some o => rfl
  | none =>
    rw [Option.getD_none, toJson_outline]
    exact congrArg (fun item => Json.object [("and", .array [item])]) (toJson_ofKeys []).symm

theorem alterOperands?_append (o : Outline) (role : GroupRole) :
    Json.alterOperands? "and" (fun items => some (items ++ [emptyGroup role]))
        o.toJson
      = some (Outline.toJson (o ++ [(role, [])])) := by
  have hempty : emptyGroup role = (Formula.ofGroup (role, [])).toJson := by
    cases role with
    | inclusion => exact (toJson_ofKeys []).symm
    | exclusion => rw [toJson_exclusion, toJson_ofKeys]; rfl
  rw [toJson_outline, toJson_outline, Json.alterOperands?, if_pos rfl, List.map_append, hempty]
  rfl

/-- On the stored expressions of groups, a change leads to that of the groups it leads to. -/
theorem applyTo?_map_toJson (c : Configuration) (change : Change) (o : Option Outline) :
    change.applyTo? c (o.map Outline.toJson)
      = (change.outline? c o).map Outline.toJson := by
  -- items stand for keys one to one, so the first item goes with the first key
  have herase : ∀ (key : String) (keys : List String),
      (keys.map categoryItem).erase (categoryItem key) = (keys.erase key).map categoryItem :=
    fun _ keys => (List.map_erase categoryItem_injective keys).symm
  cases change with
  | enable => rw [applyTo?, getD_map_toJson]; rfl
  | addGroup role =>
    have happend := alterOperands?_append (o.getD [(.inclusion, [])]) role
    rw [← getD_map_toJson] at happend
    cases role with
    | exclusion => cases o <;> exact happend
    | inclusion =>
      cases o with
      | some o => exact happend
      | none => exact congrArg some (getD_map_toJson none)
  | addCategory name choice =>
    rw [applyTo?, getD_map_toJson]
    exact choice.alterGroup?_toJson (fun keys => (map_insertKey _ keys).symm) _
  | removeCategory name choice =>
    rw [applyTo?, outline?]
    cases o with
    | none => rfl
    | some o => exact choice.alterGroup?_toJson (herase _) o

end Change

end CommandLine

/-! ### Sessions that edit groups -/

section

variable {s : Session} {settings : EntitySettings} {grammar : Grammar} {resolve : Resolver}

namespace Outline

theorem present?_toJson (o : Option Outline) :
    EntitySettings.present? ((o.map toJson).getD .null) = o.map toJson := by
  cases o with
  | none => rfl
  | some o => rw [Option.map_some, Option.getD_some, EntitySettings.present?, toJson,
      Formula.isNull_toJson, if_neg Bool.false_ne_true]

theorem reread_toJson (o : Outline) : o.toJson.reread = o.toJson := by
  have hstorable : o.toJson.IsStorable 7 := Formula.isStorable_ofGroups o
  apply hstorable.reread_eq
  rw [toJson, Formula.fractions_toJson]
  nofun

end Outline

/-- A session that edits groups writes these groups. -/
theorem Session.IsEditing.written_eq {o : Option Outline}
    (h : s.IsEditing settings grammar resolve o) :
    s.written = (o.map Outline.toJson).getD .null := by
  have hshows := h.shows
  cases o with
  | none =>
    rw [Session.written, hshows.2.1]
    rfl
  | some o =>
    obtain ⟨root, gs, hgroups, rfl⟩ := hshows
    obtain ⟨t, hopen, -, hholds⟩ := hgroups.exists_tree
    exact Session.written_eq hopen.tree hholds

/-- The groups that a session edits are read from what it writes. -/
theorem Session.IsEditing.exists_ofJson {o : Outline}
    (h : s.IsEditing settings grammar resolve (some o)) : ∃ t, Tree.ofJson o.toJson = .ok t := by
  obtain ⟨root, gs, hgroups, rfl⟩ := h.shows
  obtain ⟨t, hopen, -, hholds⟩ := hgroups.exists_tree
  have hwritable := h.writable
  rw [Session.keys_eq hopen.tree hholds] at hwritable
  obtain ⟨-, t, r, hread, -⟩ | ⟨hempty, -⟩ :=
    Tree.ofJson_formula_cases (Formula.ofGroups (gs.map Group.shape))
  · exact ⟨t, hread⟩
  · exact absurd hempty hwritable

/-- A session on stored settings that edits groups is saved as a text with these groups. -/
theorem Session.IsEditing.exists_read?_write {text : String} {o : Outline}
    (h : s.IsEditing settings grammar resolve (some o))
    (hread : EntitySettings.read? text = some settings) :
    ∃ settings', EntitySettings.read? s.toSettings.write = some settings' ∧
      settings'.targeting = some o.toJson := by
  obtain ⟨targeting, hsettings⟩ := h.settings_eq
  obtain ⟨ms, hvalue, -, hmembers⟩ := EntitySettings.exists_object_of_read? hread
  -- whatever expression the session was opened on, saving replaces it
  have hwritten : s.toSettings
      = { settings with targeting := EntitySettings.present? o.toJson } := by
    rw [s.toSettings_eq, h.written_eq, hsettings]
    rfl
  have hstorable : o.toJson.IsStorable (Json.greatestDepth - 1) := Formula.isStorable_ofGroups o
  have hpresent : EntitySettings.present? o.toJson = some o.toJson :=
    Outline.present?_toJson (some o)
  rw [hwritten]
  refine ⟨_, (EntitySettings.read?_write_of_read? hvalue hmembers hstorable).2, ?_⟩
  change (EntitySettings.present? o.toJson).map Json.reread = _
  rw [hpresent, Option.map_some, o.reread_toJson]

end

/-! ### What is stored -/

namespace CommandLine.Program

variable {σ : Type} [FileAccess (StateM σ)] [LawfulFiles σ] {files files' : σ}
  {settings : EntitySettings} {c : Configuration} {file text : String} {change : Change}

/-- A file holds settings with the expression that a change leads to from a stored one, and this
expression can be read. -/
def Stores (c : Configuration) (change : Change) (stored : Option Json) (files : σ) (file : String) :
    Prop :=
  ∃ text settings t, LawfulFiles.Holds files file text ∧
    EntitySettings.read? text = some settings ∧ settings.targeting.isSome ∧
    settings.targeting = change.applyTo? c stored ∧ Tree.ofJson settings.expression = .ok t

theorem HasChanged.stores {editor : Editor} (h : HasChanged editor file change files files')
    (hholds : LawfulFiles.Holds files file text)
    (hread : EntitySettings.read? text = some settings) :
    Stores editor.configuration change settings.targeting files' file := by
  obtain ⟨text', settings', s, saved, s', hholds', hread', hopen, hact, hfiles⟩ := h
  obtain rfl := hholds.unique hholds'
  cases hread.symm.trans hread'
  obtain ⟨ms, -, -, hmembers⟩ := EntitySettings.exists_object_of_read? hread
  have hexpression := EntitySettings.present?_expression
    (EntitySettings.targeting_ne_null_of_ofMembers? hmembers)
  obtain ⟨t, ht, ⟨hedit, hphase⟩ | ⟨-, o, hstored, hediting⟩⟩ := Editor.sessionOn_cases hopen
  · -- what must only be read is there, and is only enabled
    obtain ⟨rfl, rfl, rfl⟩ := Change.on_act_readOnly hphase hact
    cases hfiles
    cases htargeting : settings.targeting with
    | none =>
      rw [EntitySettings.expression, htargeting] at ht
      cases ht
      cases hedit
    | some value => exact ⟨text, settings, t, hholds, hread, by rw [htargeting]; rfl, htargeting, ht⟩
  · have htargeting : settings.targeting = o.map Outline.toJson := by
      rw [← hexpression, hstored]
      exact Outline.present?_toJson o
    -- the session now edits the outline that the change leads to
    obtain ⟨hsome, hediting', hkept⟩ := Change.hasDone_act hediting hact
    obtain ⟨o', ho'⟩ := Option.isSome_iff_exists.mp hsome
    have happly : change.applyTo? editor.configuration settings.targeting = some o'.toJson := by
      rw [htargeting, Change.applyTo?_map_toJson, ho']
      rfl
    rw [ho'] at hediting' hkept
    rw [Stores, happly]
    cases saved with
    | false =>
      obtain rfl := hkept rfl
      cases hfiles
      exact ⟨text, settings, t, hholds, hread, by rw [htargeting]; rfl, htargeting, ht⟩
    | true =>
      obtain ⟨later, hlater, hnew⟩ := hediting'.exists_read?_write hread
      obtain ⟨t', ht'⟩ := hediting'.exists_ofJson
      have hexpression' : later.expression = o'.toJson := by
        rw [EntitySettings.expression, hnew, Option.getD_some]
      exact ⟨_, later, t', hfiles.1, hlater, by rw [hnew]; rfl, hnew, hexpression' ▸ ht'⟩

/-- A change that succeeds leaves settings with the expression that it leads to from the stored one,
under the configuration in force, and this expression can be read. No category has an empty key. -/
theorem stores_what_changes_say (around : Surroundings) {invocation : Invocation}
    (hcommand : invocation.command = some (.change file change))
    (hholds : LawfulFiles.Holds files file text)
    (hread : EntitySettings.read? text = some settings)
    (hsuccess : (on (ofInvocation around invocation) [] files).1.1 = .ok ()) :
    ∃ c, configurationFor around invocation files = .ok c ∧
      Stores c change settings.targeting (on (ofInvocation around invocation) [] files).2 file ∧
      ∀ name, c.categoryKey name ≠ "" := by
  obtain ⟨e, hfails, -⟩ | ⟨-, editor, hconfiguration, hchanged⟩ :=
    on_ofInvocation_change around hcommand files
  · rw [hsuccess] at hfails
    cases hfails
  · exact ⟨editor.configuration, hconfiguration, hchanged.stores hholds hread,
      Change.categoryKey_ne_empty editor.configuration⟩

/-- The category is added to the first inclusion group, which stands behind an exclusion group. -/
theorem stores_what_changes_say_behind_exclusion :
    ∃ (around : Surroundings) (invocation : Invocation) (files : FileTree) (text : String)
      (settings : EntitySettings),
      invocation.command = some (.change "f" (.addCategory "2" (.inclusion 1))) ∧
      LawfulFiles.Holds files "f" (Json.object [("audienceTargeting", .object
        [("and", .array [emptyGroup .exclusion,
          .object [("or", .array [categoryItem "bluekai:1"])]])])]).compact ∧
      LawfulFiles.Holds (on (ofInvocation around invocation) [] files).2 "f" text ∧
      EntitySettings.read? text = some settings ∧
      settings.targeting = some (.object [("and", .array [emptyGroup .exclusion,
        .object [("or", .array [categoryItem "bluekai:1", categoryItem "bluekai:2"])]])]) := by
  let around : Surroundings := { environment := {}, directory := "/" }
  let invocation : Invocation :=
    { directory := none, command := some (.change "f" (.addCategory "2" (.inclusion 1))) }
  let stored : Json := .object [("and", .array
    [emptyGroup .exclusion, .object [("or", .array [categoryItem "bluekai:1"])]])]
  let text : String := (Json.object [("audienceTargeting", stored)]).compact
  let files : FileTree := { entries := [(["f"], .file (.text text))] }
  have hholds : LawfulFiles.Holds files "f" text := ⟨["f"], by rfl, by rfl⟩
  have hread : EntitySettings.read? text = some { targeting := some stored } := by decide +kernel
  have hok : (on (ofInvocation around invocation) [] files).1.1.toOption = some () := by
    decide +kernel
  have hconfiguration : (configurationFor around invocation files).toOption = some {} := by
    decide +kernel
  obtain ⟨c, hc, ⟨text', settings, -, hholds', hread', -, htargeting, -⟩, -⟩ :=
    stores_what_changes_say around rfl hholds hread (eq_ok_of_toOption hok)
  rw [hc] at hconfiguration
  cases hconfiguration
  refine ⟨around, invocation, files, text', settings, rfl, hholds, hholds', hread', ?_⟩
  rw [htargeting]
  decide +kernel

end CommandLine.Program

end Targeting
