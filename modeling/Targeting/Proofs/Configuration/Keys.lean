import Mathlib.Data.List.Induction
import Mathlib.Data.String.Basic
import Targeting.Configuration.Variables

/-!
# The keys of variables and what is collected for them

The name of a variable spells a key, and a key leads to a place among the collected values. A value
that is put at one place is found there, and replaces what stands at every place that its steps meet:
at the places around it and below it, and behind a table that turns into an array. What stands at
other places stays. So of several values that are collected one after the other, the last one that
meets a path decides what is found there.

## Main definitions

* `VariableKey.meets` — collecting a value for a key changes what stands at a path

## Main results

* `VariableKey.eq_of_steps` — a path of members has a single key
* `Collected.scalarAt?_put_self`, `Collected.scalarAt?_put_of_not_meets`,
  `Collected.scalarAt?_put_of_meets` — what one value changes
* `Collected.scalarAt?_foldl_put` — of the values that meet a path the last one decides
-/

namespace Targeting

theorem Text.pieces_eq_splitOn (c : Char) (l : List Char) : pieces c l = l.splitOn c := by
  induction l with
  | nil => rfl
  | cons d l ih =>
    change _ = List.splitOnP (· == c) (d :: l)
    rw [pieces, ih, List.splitOnP_cons_eq_if_modifyHead]
    change _ = if _ then [] :: l.splitOn c else (l.splitOn c).modifyHead (List.cons d)
    cases hl : l.splitOn c with
    | nil => exact absurd hl (List.splitOnP_ne_nil _ _)
    | cons p ps => by_cases h : d = c <;> simp [h]

/-- The pieces of a text with the separators between them are the text. -/
theorem Text.intercalate_pieces (c : Char) (l : List Char) : [c].intercalate (pieces c l) = l := by
  rw [pieces_eq_splitOn, List.intercalate_splitOn]

/-! ### Names and keys -/

namespace VariableKey

variable {name key g k : String} {l p q text : List Char} {path : ConfigurationPath}

theorem pointed_eq_self (h : '.' ∉ pointed l) : pointed l = l := by
  fun_induction pointed l with
  | case1 => rfl
  | case2 rest ih => simp at h
  | case3 c rest _ ih => rw [ih (List.not_mem_of_not_mem_cons h)]

/-- In front of a point stands what stood in front of a point or a pair of underscores. -/
theorem eq_append_of_pointed (hp : '.' ∉ p) (h : pointed l = p ++ '.' :: q) :
    ∃ rest, pointed rest = q ∧ (l = p ++ "__".toList ++ rest ∨ l = p ++ ".".toList ++ rest) := by
  fun_induction pointed l generalizing p with
  | case1 => simp at h
  | case2 rest ih =>
    cases p with
    | nil =>
      cases h
      exact ⟨rest, rfl, Or.inl rfl⟩
    | cons c p =>
      obtain ⟨rfl, -⟩ := List.cons.inj h
      exact absurd List.mem_cons_self hp
  | case3 c rest _ ih =>
    cases p with
    | nil =>
      obtain ⟨rfl, rfl⟩ := List.cons.inj h
      exact ⟨rest, rfl, Or.inr rfl⟩
    | cons c' p =>
      obtain ⟨rfl, hback⟩ := List.cons.inj h
      obtain ⟨rest', hrest, hl | hl⟩ := ih (List.not_mem_of_not_mem_cons hp) hback
      · exact ⟨rest', hrest, Or.inl (by rw [hl]; rfl)⟩
      · exact ⟨rest', hrest, Or.inr (by rw [hl]; rfl)⟩

/-- Case does not matter. -/
theorem ofName?_congr {name' : String} (h : Text.lower name = Text.lower name') :
    ofName? name = ofName? name' := by
  rw [ofName?, ofName?, h]

/-- A key is what follows the marker. -/
theorem exists_of_ofName? (h : ofName? name = some key) :
    ∃ rest, (Text.lower name).toList = "audtarget__".toList ++ rest ∧ pointed rest = key.toList := by
  obtain ⟨hbegin, hkey⟩ := Option.ite_none_right_eq_some.mp h
  obtain ⟨rest, hrest⟩ := List.isPrefixOf_iff_prefix.mp hbegin
  rw [← hrest, List.drop_left] at hkey
  cases hkey
  exact ⟨rest, hrest.symm, String.toList_ofList.symm⟩

theorem lower_of_ofName?_one (hk : '.' ∉ k.toList) (h : ofName? name = some k) :
    Text.lower name = "audtarget__" ++ k := by
  obtain ⟨rest, hname, hrest⟩ := exists_of_ofName? h
  rw [pointed_eq_self (hrest ▸ hk)] at hrest
  exact String.toList_inj.mp (by rw [hname, hrest, String.toList_append])

theorem lower_of_ofName?_two (hg : '.' ∉ g.toList) (hk : '.' ∉ k.toList)
    (h : ofName? name = some (g ++ "." ++ k)) :
    Text.lower name = "audtarget__" ++ g ++ "__" ++ k ∨
      Text.lower name = "audtarget__" ++ g ++ "." ++ k := by
  obtain ⟨rest, hname, hrest⟩ := exists_of_ofName? h
  obtain ⟨rest', hk', hrest⟩ := eq_append_of_pointed (q := k.toList) hg (by simpa using hrest)
  rw [pointed_eq_self (hk' ▸ hk)] at hk'
  refine hrest.imp (fun hrest => ?_) fun hrest => ?_ <;>
  · refine String.toList_inj.mp ?_
    rw [hname, hrest, hk']
    simp

/-! ### Keys and paths -/

/-- A part of a key that leads to members only is the name of a single one. -/
theorem eq_of_part? (h : part? text = some (path.map .member)) : path = [String.ofList text] := by
  have htext := Text.intercalate_pieces '[' text
  unfold part? at h
  split at h
  · cases h
  · next name places hpieces =>
    obtain ⟨-, h⟩ := Option.ite_none_right_eq_some.mp h
    obtain ⟨numbers, hnumbers, h⟩ := Option.map_eq_some_iff.mp h
    cases path with
    | nil => cases h
    | cons k path =>
      obtain ⟨hk, hback⟩ := List.cons.inj h
      cases hk
      cases places with
      | nil =>
        cases hnumbers
        cases List.map_eq_nil_iff.mp hback.symm
        rw [hpieces] at htext
        rw [← htext, List.intercalate_singleton]
      | cons place places =>
        -- a place in brackets is a step that leads to no member
        obtain ⟨n, -, hnumbers⟩ := Option.bind_eq_some_iff.mp
          ((List.mapM_cons (m := Option)).symm.trans hnumbers)
        obtain ⟨ns, -, hns⟩ := Option.bind_eq_some_iff.mp hnumbers
        cases hns
        cases path <;> cases hback

theorem eq_of_parts {texts : List (List Char)} {parts : List (List PathStep)}
    (h : texts.mapM part? = some parts) (hpath : parts.flatten = path.map .member) :
    path = texts.map String.ofList := by
  induction texts generalizing parts path with
  | nil =>
    cases h
    exact List.map_eq_nil_iff.mp hpath.symm
  | cons text texts ih =>
    rw [List.mapM_cons] at h
    obtain ⟨first, hfirst, h⟩ := Option.bind_eq_some_iff.mp h
    obtain ⟨rest, hrest, h⟩ := Option.bind_eq_some_iff.mp h
    cases h
    obtain ⟨front, back, rfl, rfl, hback⟩ := List.append_eq_map_iff.mp hpath
    rw [eq_of_part? hfirst, ih hrest hback.symm]
    rfl

/-- A path of members has a single key, its parts with points between them. -/
theorem eq_of_steps (h : steps key = path.map .member) : key = ".".intercalate path := by
  unfold steps at h
  split at h
  · next parts hparts =>
    apply String.toList_inj.mp
    rw [eq_of_parts hparts h, String.toList_intercalate, List.map_map]
    simpa using (Text.intercalate_pieces '.' key.toList).symm
  · cases path with
    | nil => cases h
    | cons k path =>
      obtain ⟨hk, hback⟩ := List.cons.inj h
      cases hk
      cases List.map_eq_nil_iff.mp hback.symm
      exact String.intercalate_singleton.symm

/-- Steps meet a path if they lead to its end, to what holds it, or to a part of it, or if they take a
place in an array where the path takes a member. -/
def meets : List PathStep → ConfigurationPath → Bool
  | .member key :: steps, name :: path => key = name && meets steps path
  | .place _ :: _, _ :: _ => true
  | [], _ => true
  | _, [] => true

end VariableKey

/-! ### Collecting values -/

/-- The last element with a property has none with it behind. -/
theorem findRev?_eq_some_iff {α : Type} {p : α → Bool} {l : List α} {a : α} :
    l.findRev? p = some a ↔
      p a = true ∧ ∃ before after, l = before ++ a :: after ∧ ∀ b ∈ after, p b = false := by
  rw [List.findRev?_eq_find?_reverse, List.find?_eq_some_iff_append]
  refine and_congr_right fun _ => ?_
  constructor
  · rintro ⟨front, back, hl, hfront⟩
    refine ⟨back.reverse, front.reverse, ?_, fun b hb => ?_⟩
    · rw [← List.reverse_reverse l, hl]
      simp
    · simpa using hfront b (List.mem_reverse.mp hb)
  · rintro ⟨before, after, rfl, hafter⟩
    refine ⟨after.reverse, before.reverse, by simp, fun b hb => ?_⟩
    simpa using hafter b (List.mem_reverse.mp hb)

theorem isSome_findRev? {α : Type} {p : α → Bool} {l : List α} {a : α} (ha : a ∈ l) (hp : p a = true) :
    (l.findRev? p).isSome := by
  rw [List.findRev?_eq_find?_reverse, List.find?_isSome]
  exact ⟨a, List.mem_reverse.mpr ha, hp⟩

namespace Collected

open VariableKey (meets)

variable {v : Collected} {x : Scalar} {steps : List PathStep} {path : ConfigurationPath}

theorem scalarAt?_nothing (path : ConfigurationPath) : nothing.scalarAt? path = none := by
  cases path <;> rfl

theorem scalarAt?_getD_nothing (v : Option Collected) (path : ConfigurationPath) :
    (v.getD .nothing).scalarAt? path = v.bind (scalarAt? path) := by
  cases v with
  | none => exact scalarAt?_nothing path
  | some v => rfl

theorem member?_put (x : Scalar) (key name : String) (steps : List PathStep) (v : Collected) :
    (v.put x (.member key :: steps)).member? name
      = if key = name then some (((v.member? key).getD .nothing).put x steps)
        else v.member? name := by
  rw [put, member?, members, List.find?_cons]
  by_cases h : key = name <;> simp [h, member?]

/-- A value is found where it was put. -/
theorem scalarAt?_put_self (x : Scalar) (path : ConfigurationPath) (v : Collected) :
    (v.put x (path.map .member)).scalarAt? path = some x := by
  induction path generalizing v with
  | nil => rfl
  | cons key path ih =>
    rw [List.map_cons, scalarAt?, member?_put, if_pos rfl]
    exact ih _

/-- A value that is put elsewhere changes nothing, unless its steps meet the path. -/
theorem scalarAt?_put_of_not_meets (h : meets steps path = false) :
    (v.put x steps).scalarAt? path = v.scalarAt? path := by
  fun_induction meets steps path generalizing v with
  | case1 key steps name path ih =>
    rw [scalarAt?, member?_put, scalarAt?]
    by_cases hkey : key = name
    · subst hkey
      rw [if_pos rfl, Option.bind_some, ih (by simpa using h), scalarAt?_getD_nothing]
    · rw [if_neg hkey]
  | case2 | case3 | case4 => cases h

/-- A value that is put elsewhere along steps that meet the path leaves no value there. -/
theorem scalarAt?_put_of_meets (h : meets steps path = true) (hne : steps ≠ path.map .member) :
    (v.put x steps).scalarAt? path = none := by
  fun_induction meets steps path generalizing v with
  | case1 key steps name path ih =>
    obtain ⟨rfl, hsteps⟩ := by simpa only [Bool.and_eq_true, decide_eq_true_eq] using h
    rw [scalarAt?, member?_put, if_pos rfl]
    exact ih hsteps fun heq => hne (congrArg _ heq)
  | case2 => rfl
  | case3 path =>
    cases path with
    | nil => exact absurd rfl hne
    | cons => rfl
  | case4 steps =>
    cases steps with
    | nil => exact absurd rfl hne
    | cons step => cases step <;> rfl

/-- Of the values whose steps meet a path the last one decides what is found there. -/
theorem scalarAt?_foldl_put (path : ConfigurationPath) (entries : List (String × Scalar))
    (v : Collected) :
    (entries.foldl (fun v (key, x) => v.put x (VariableKey.steps key)) v).scalarAt? path
      = match entries.findRev? fun e => meets (VariableKey.steps e.1) path with
        | some (key, x) => if VariableKey.steps key = path.map .member then some x else none
        | none => v.scalarAt? path := by
  induction entries using List.reverseRecOn with
  | nil => rfl
  | append_singleton entries e ih =>
    rw [List.foldl_append, List.foldl_cons, List.foldl_nil, List.findRev?_eq_find?_reverse,
      List.reverse_append, List.reverse_singleton, List.singleton_append, List.find?_cons,
      ← List.findRev?_eq_find?_reverse]
    cases h : meets (VariableKey.steps e.1) path with
    | false => exact (scalarAt?_put_of_not_meets h).trans ih
    | true =>
      dsimp only
      split
      · next hown =>
        rw [hown]
        exact scalarAt?_put_self e.2 path _
      · next hother => exact scalarAt?_put_of_meets h hother

end Collected

end Targeting
