import Targeting.CommandLine.Change
import Targeting.Proofs.Session.Continuity

/-!
# What changes do to a session

A change of the command line is a few revisions of the session, one after the other, with checks in
between. It never asks for a session to be saved that must only be read. On any other session, what it
does when it succeeds is read off the outline, and a change that does not ask for saving has left the
outline as it was.

## Main definitions

* `GroupChoice.place?` — the place of the group that a choice stands for
* `Change.outline?` — the outline that a change leads to
* `Change.HasDone` — the session edits this outline

## Main results

* `Change.on_act_readOnly` — what must only be read is not saved
* `Change.hasDone_act` — what a change that succeeds leads to
-/

namespace Targeting.CommandLine

open Session.Action

variable {α β : Type} {a : α} {s s' : Session}

namespace SessionChange

/-- The result of a change of a session, and the session afterwards. -/
def on (x : SessionChange α) (s : Session) : Except CommandError α × Session :=
  (ExceptT.run x).run s

@[simp] theorem on_pure (a : α) (s : Session) : (pure a : SessionChange α).on s = (.ok a, s) := rfl

@[simp] theorem on_throw (e : CommandError) (s : Session) :
    (throw e : SessionChange α).on s = (.error e, s) := rfl

@[simp] theorem on_get (s : Session) : (get : SessionChange Session).on s = (.ok s, s) := rfl

theorem on_bind (x : SessionChange α) (f : α → SessionChange β) (s : Session) :
    (x >>= f).on s = match x.on s with
      | (.ok a, s') => (f a).on s'
      | (.error e, s') => (.error e, s') := by
  rcases hx : x.on s with ⟨e | a, s'⟩
  · exact run_bind_error hx f
  · exact run_bind_ok hx f

theorem exists_of_bind_ok {x : SessionChange α} {f : α → SessionChange β} {b : β}
    (h : (x >>= f).on s = (.ok b, s')) : ∃ a s₁, x.on s = (.ok a, s₁) ∧ (f a).on s₁ = (.ok b, s') := by
  rw [on_bind] at h
  rcases hx : x.on s with ⟨_ | a, s₁⟩
  · rw [hx] at h
    cases h
  · rw [hx] at h
    exact ⟨a, s₁, rfl, h⟩

theorem on_perform (action : Session.Action α) (s : Session) :
    (perform action : SessionChange α).on s
      = ((action.on s).1.mapError CommandError.session, (action.on s).2) := rfl

theorem on_map (f : α → β) (x : SessionChange α) (s : Session) :
    (f <$> x).on s = ((x.on s).1.map f, (x.on s).2) := by
  rw [map_eq_pure_bind, on_bind]
  rcases x.on s with ⟨_ | _, _⟩ <;> rfl

/-- An action whose result does not matter is a call. -/
theorem on_discard_perform {action : Session.Action α} {answer : α → Tree.Answer} {c : Session.Call}
    (h : c.action = answer <$> action) (s : Session) :
    (discard (perform action) : SessionChange Unit).on s
      = (((c.action.on s).1.map fun _ => ()).mapError CommandError.session, (c.action.on s).2) := by
  change ((fun _ => ()) <$> (perform action) : SessionChange Unit).on s = _
  rw [on_map, on_perform, h, Session.Action.on_map]
  rcases action.on s with ⟨_ | _, s'⟩ <;> rfl

theorem on_expectWritable (s : Session) :
    expectWritable.on s = if s.phase = .readOnly then (.error (.session .readOnly), s)
      else (.ok (), s) := by
  unfold expectWritable
  rw [on_bind, on_get]
  dsimp only
  split <;> rfl

theorem on_chooseGroup (choice : GroupChoice) (s : Session) :
    (chooseGroup choice).on s = (chosenGroup s choice, s) := by
  unfold chooseGroup
  rw [on_bind, on_get]
  dsimp only
  cases chosenGroup s choice <;> rfl

end SessionChange

/-! ### Groups -/

/-- The place of the group that a choice stands for. -/
def GroupChoice.place? : GroupChoice → Option Place
  | .inclusion 0 => none
  | .inclusion (n + 1) => some (.inclusion n)
  | .exclusion => some .exclusion

/-- A group that is chosen stands at its place. -/
theorem exists_place_of_chosenGroup {choice : GroupChoice} {group : NodeId}
    (h : chosenGroup s choice = .ok group) :
    ∃ place, choice.place? = some place ∧ s.groupAt? place = some group := by
  unfold chosenGroup at h
  cases choice with
  | exclusion =>
    dsimp only at h
    split at h
    · next group' hgroup =>
      cases h
      exact ⟨.exclusion, rfl, hgroup⟩
    · cases h
  | inclusion number =>
    dsimp only at h
    split at h
    · next number group' hgroup =>
      cases h
      exact ⟨.inclusion number, rfl, hgroup⟩
    · cases h

/-- Changing nothing about the group at a place. -/
theorem alter_eq_self {role : GroupRole} {f : List String → Option (List String)} {n : Nat}
    {o : Outline} {keys : List String}
    (hkeys : (o.filter fun shape => shape.1 = role)[n]?.map (·.2) = some keys)
    (hf : f keys = some keys) : Outline.alter role f n o = o := by
  induction o generalizing n with
  | nil => cases n <;> rfl
  | cons shape o ih =>
    by_cases hrole : shape.1 = role
    · rw [List.filter_cons_of_pos (by simpa using hrole)] at hkeys
      cases n with
      | zero =>
        cases hkeys
        rw [Outline.alter_cons_zero f o hrole, hf]
        rfl
      | succ n => rw [Outline.alter_cons_succ f n o hrole, ih hkeys]
    · rw [List.filter_cons_of_neg (by simpa using hrole)] at hkeys
      rw [Outline.alter_cons_of_ne f n o hrole, ih hkeys]

namespace Change

variable {c : Configuration} {change : Change} {saved : Bool} {settings : EntitySettings}
  {grammar : Grammar} {resolve : Resolver} {o : Option Outline}

/-! ### What must only be read -/

/-- What must only be read is never to be saved. Only enabling succeeds, since there is an expression
already. -/
theorem on_act_readOnly (hphase : s.phase = .readOnly) (h : (change.act c).on s = (.ok saved, s')) :
    change = .enable ∧ saved = false ∧ s' = s := by
  -- every edit is refused, and only enabling may succeed without one
  have hrefused : ∀ call : Session.Call, call.action.on s = (.error .readOnly, s) := by
    intro call
    apply Session.on_call_refused
    rw [hphase]
    cases call <;> rfl
  have henable : (discard (perform Session.enableTargeting) : SessionChange Unit).on s
      = (.error (.session .readOnly), s) := by
    rw [SessionChange.on_discard_perform (c := .enableTargeting) rfl, hrefused]
    rfl
  cases change with
  | enable =>
    rw [act, SessionChange.on_bind, SessionChange.on_get] at h
    dsimp only at h
    split at h
    · cases h
      exact ⟨rfl, rfl, rfl⟩
    · rw [SessionChange.on_bind, henable] at h
      cases h
  | addGroup role =>
    rw [act, SessionChange.on_bind, SessionChange.on_get] at h
    dsimp only at h
    rw [SessionChange.on_bind, henable] at h
    cases h
  | addCategory name choice =>
    rw [act, SessionChange.on_bind, SessionChange.on_expectWritable, if_pos hphase] at h
    cases h
  | removeCategory name choice =>
    rw [act, SessionChange.on_bind, SessionChange.on_expectWritable, if_pos hphase] at h
    cases h

/-! ### What is edited -/

section Editing

variable (h : s.IsEditing settings grammar resolve o)
include h

/-- An action that succeeds does to a session what its revision does to the outline. -/
theorem isEditing_of_perform {action : Session.Action α} {answer : α → Tree.Answer}
    {call : Session.Call} {revision : Revision} (haction : call.action = answer <$> action)
    (hcall : s.revisionCall? revision = some call)
    (hadd : ∀ place, revision ≠ .change place (.addCategory ""))
    (hon : (discard (perform action) : SessionChange Unit).on s = (.ok (), s')) :
    (∃ a, (Outline.revise grammar revision o).1 = some (.ok a)) ∧
      s'.IsEditing settings grammar resolve (Outline.revise grammar revision o).2 := by
  obtain ⟨houtcome, hafter⟩ := h.revise hadd
  rw [Session.revise_of_call hcall] at houtcome hafter
  rw [SessionChange.on_discard_perform haction] at hon
  obtain ⟨hresult, rfl⟩ := Prod.ext_iff.mp hon
  refine ⟨?_, hafter⟩
  rw [← houtcome]
  cases hcalled : (call.action.on s).1 with
  | error e =>
    rw [hcalled] at hresult
    cases hresult
  | ok a => exact ⟨_, rfl⟩

/-- Enabling an expression leaves one with its groups, or with a first group. -/
theorem isEditing_of_enable
    (hon : (discard (perform Session.enableTargeting) : SessionChange Unit).on s = (.ok (), s')) :
    s'.IsEditing settings grammar resolve (some (o.getD [(.inclusion, [])])) := by
  have hcall : s.revisionCall? .enableTargeting = some .enableTargeting := rfl
  have hafter := (isEditing_of_perform h rfl hcall (by simp) hon).2
  cases o <;> exact hafter

theorem root_isSome_of_isEditing : s.root.isSome = o.isSome := by
  have hshows := h.shows
  cases o with
  | none => rw [Session.root, hshows.2.1]; rfl
  | some o =>
    obtain ⟨root, gs, hgroups, -⟩ := hshows
    rw [hgroups.root_eq]
    rfl

/-- A session that edits an outline is composing, and one that edits nothing yet is empty. -/
theorem phase_of_isEditing : s.phase = if o.isSome then .composing else .empty := by
  have hshows := h.shows
  cases o with
  | none => exact Session.phase_eq_empty_iff.mpr ⟨hshows.1, hshows.2.1⟩
  | some o =>
    obtain ⟨root, gs, hgroups, -⟩ := hshows
    exact hgroups.phase

theorem phase_ne_readOnly_of_isEditing : s.phase ≠ .readOnly := by
  cases o <;> simp [phase_of_isEditing h]

theorem phase_eq_empty_iff_of_isEditing : s.phase = .empty ↔ o = none := by
  cases o <;> simp [phase_of_isEditing h]

/-- Adding a category begins with a first group if there is no expression. -/
theorem isEditing_of_enableIfEmpty (hon : enableIfEmpty.on s = (.ok (), s')) :
    s'.IsEditing settings grammar resolve (some (o.getD [(.inclusion, [])])) := by
  rw [enableIfEmpty, SessionChange.on_bind, SessionChange.on_get] at hon
  dsimp only at hon
  split at hon
  · exact isEditing_of_enable h hon
  · next hsome =>
    rw [phase_eq_empty_iff_of_isEditing h] at hsome
    cases hon
    cases o with
    | none => exact absurd rfl hsome
    | some o => exact h

/-- Adding a group that there is room for. -/
theorem isEditing_of_addGroup {role : GroupRole}
    (hon : (discard (perform (Session.addGroup role)) : SessionChange Unit).on s = (.ok (), s')) :
    s'.IsEditing settings grammar resolve (o.map (· ++ [(role, [])])) := by
  have hcall : s.revisionCall? (.addGroup role) = some (.addGroup role) := rfl
  obtain ⟨⟨a, houtcome⟩, hafter⟩ := isEditing_of_perform h rfl hcall (by simp) hon
  cases o with
  | none => cases houtcome
  | some o =>
    rw [Outline.revise] at houtcome hafter
    split at houtcome
    · next hroom =>
      rw [if_pos hroom] at hafter
      exact hafter
    · cases houtcome

/-- What comes of the change of a group that was chosen. -/
theorem isEditing_of_change {choice : GroupChoice} {group : NodeId} {change : Targeting.Change}
    {found : Except SessionError (Option Bool)} (hgroup : chosenGroup s choice = .ok group)
    (hadd : change ≠ .addCategory "")
    (hfound : ((Session.changeCall group change).action.on s).1.map Tree.Answer.finds? = found) :
    ∃ place outline keys, choice.place? = some place ∧ o = some outline ∧
      outline.keysAt? place = some keys ∧ found = .ok (change.finds? keys) ∧
      ((Session.changeCall group change).action.on s).2.IsEditing settings grammar resolve
        (some (outline.alter place.role change.keys? place.rank)) := by
  obtain ⟨place, hchoice, hplace⟩ := exists_place_of_chosenGroup hgroup
  have hcall : s.revisionCall? (.change place change)
      = some (Session.changeCall group change) := by
    rw [Session.revisionCall?, hplace, Option.map_some]
  have hnew : ∀ place', Revision.change place change ≠ .change place' (.addCategory "") := by
    rintro place' heq
    cases heq
    exact hadd rfl
  obtain ⟨houtcome, hafter⟩ := h.revise hnew
  rw [Session.revise_of_call hcall, hfound] at houtcome
  rw [Session.revise_of_call hcall] at hafter
  cases o with
  | none => cases houtcome
  | some o =>
    rw [Outline.revise] at houtcome hafter
    cases hkeys : o.keysAt? place with
    | none =>
      rw [hkeys] at houtcome
      cases houtcome
    | some keys =>
      rw [hkeys] at houtcome hafter
      exact ⟨place, o, keys, hchoice, rfl, hkeys, Option.some.inj houtcome, hafter⟩

end Editing

/-! ### Every change -/

/-- The outline with other keys in the group that a choice stands for, if there is this group. -/
def changedAt? (choice : GroupChoice) (f : List String → List String) (o : Outline) :
    Option Outline :=
  choice.place?.bind fun place => (o.keysAt? place).map fun _ =>
    o.alter place.role (fun keys => some (f keys)) place.rank

/-- The outline that a change leads to, if the group that it is for exists. -/
def outline? (c : Configuration) : Change → Option Outline → Option Outline
  | .enable, o => some (o.getD [(.inclusion, [])])
  | .addGroup .inclusion, none => some [(.inclusion, [])]
  | .addGroup role, o => some (o.getD [(.inclusion, [])] ++ [(role, [])])
  | .addCategory name choice, o =>
    changedAt? choice (insertKey (c.categoryKey name)) (o.getD [(.inclusion, [])])
  | .removeCategory name choice, o =>
    o.bind (changedAt? choice fun keys => keys.erase (c.categoryKey name))

theorem changedAt?_eq_some {choice : GroupChoice} {place : Place} {o : Outline}
    {keys : List String} (hplace : choice.place? = some place) (hkeys : o.keysAt? place = some keys)
    (f : List String → List String) :
    changedAt? choice f o = some (o.alter place.role (fun keys => some (f keys)) place.rank) := by
  rw [changedAt?, hplace, Option.bind_some, hkeys, Option.map_some]

/-- The key of a category is never empty: it has a colon. -/
theorem categoryKey_ne_empty (c : Configuration) (name : String) : c.categoryKey name ≠ "" := by
  have hcolon : ':' ∈ (c.categoryKey name).toList := by
    unfold Configuration.categoryKey
    split
    · assumption
    · simp
  intro hempty
  rw [hempty] at hcolon
  cases hcolon

/-- A session after a change that succeeded: it edits an outline, which is the former one if the
session is not to be saved. -/
structure HasDone (settings : EntitySettings) (grammar : Grammar) (resolve : Resolver)
    (o o' : Option Outline) (saved : Bool) (s' : Session) : Prop where
  exists_outline : o'.isSome
  isEditing : s'.IsEditing settings grammar resolve o'
  kept : saved = false → o' = o

section Act

variable (h : s.IsEditing settings grammar resolve o)
include h

theorem hasDone_enable (hact : (enable.act c).on s = (.ok saved, s')) :
    HasDone settings grammar resolve o (enable.outline? c o) saved s' := by
  rw [act, SessionChange.on_bind, SessionChange.on_get] at hact
  dsimp only at hact
  rw [root_isSome_of_isEditing h] at hact
  cases o with
  | some o =>
    rw [Option.isSome_some, if_pos rfl] at hact
    cases hact
    exact ⟨rfl, h, fun _ => rfl⟩
  | none =>
    rw [Option.isSome_none, if_neg Bool.false_ne_true] at hact
    obtain ⟨_, s₁, hon, hact⟩ := SessionChange.exists_of_bind_ok hact
    cases hact
    exact ⟨rfl, isEditing_of_enable h hon, nofun⟩

theorem hasDone_addGroup {role : GroupRole}
    (hact : ((addGroup role).act c).on s = (.ok saved, s')) :
    HasDone settings grammar resolve o ((addGroup role).outline? c o) saved s' := by
  rw [act, SessionChange.on_bind, SessionChange.on_get] at hact
  obtain ⟨_, s₁, hon, hrest⟩ := SessionChange.exists_of_bind_ok hact
  have h₁ := isEditing_of_enable h hon
  split at hrest
  · next hnew =>
    obtain ⟨hempty, rfl⟩ := hnew
    obtain rfl := (phase_eq_empty_iff_of_isEditing h).mp hempty
    cases hrest
    exact ⟨rfl, h₁, nofun⟩
  · next hold =>
    rw [phase_eq_empty_iff_of_isEditing h] at hold
    rw [SessionChange.on_bind, SessionChange.on_get] at hrest
    dsimp only at hrest
    split at hrest
    · obtain ⟨_, _, hfull, -⟩ := SessionChange.exists_of_bind_ok hrest
      cases hfull
    · obtain ⟨_, s₂, hadd, hend⟩ := SessionChange.exists_of_bind_ok hrest
      cases hend
      -- a first inclusion group is there already, so this one comes behind others
      have houtline : outline? c (.addGroup role) o
          = some (o.getD [(.inclusion, [])] ++ [(role, [])]) := by
        cases role with
        | exclusion => rfl
        | inclusion =>
          cases o with
          | some o => rfl
          | none => exact absurd ⟨rfl, rfl⟩ hold
      rw [houtline]
      exact ⟨rfl, isEditing_of_addGroup h₁ hadd, nofun⟩

/-- A session that edits groups may be changed. -/
theorem on_expectWritable_bind {f : Unit → SessionChange α}
    (hon : (expectWritable >>= f).on s = (.ok a, s')) : (f ()).on s = (.ok a, s') := by
  rwa [SessionChange.on_bind, SessionChange.on_expectWritable,
    if_neg (phase_ne_readOnly_of_isEditing h)] at hon

theorem hasDone_addCategory {name : String} {choice : GroupChoice}
    (hact : ((addCategory name choice).act c).on s = (.ok saved, s')) :
    HasDone settings grammar resolve o ((addCategory name choice).outline? c o) saved s' := by
  obtain ⟨_, s₁, henable, hrest⟩ :=
    SessionChange.exists_of_bind_ok (on_expectWritable_bind h hact)
  have h₁ := isEditing_of_enableIfEmpty h henable
  obtain ⟨group, s₂, hgroup, hrest⟩ := SessionChange.exists_of_bind_ok hrest
  rw [SessionChange.on_chooseGroup] at hgroup
  obtain ⟨hchosen, rfl⟩ := Prod.mk.inj hgroup
  obtain ⟨_, s₃, hadd, hend⟩ := SessionChange.exists_of_bind_ok hrest
  cases hend
  rw [SessionChange.on_discard_perform (c := .addCategory group (c.categoryKey name)) rfl] at hadd
  obtain ⟨-, rfl⟩ := Prod.mk.inj hadd
  -- an empty key could not be read again, but every key from the command line has a colon
  have hkey : Targeting.Change.addCategory (c.categoryKey name) ≠ .addCategory "" := by
    simpa using categoryKey_ne_empty c name
  obtain ⟨place, outline, keys, hplace, houtline, hkeys, -, hafter⟩ :=
    isEditing_of_change h₁ hchosen hkey rfl
  rw [outline?, Option.some.inj houtline, changedAt?_eq_some hplace hkeys]
  exact ⟨rfl, hafter, nofun⟩

theorem hasDone_removeCategory {name : String} {choice : GroupChoice}
    (hact : ((removeCategory name choice).act c).on s = (.ok saved, s')) :
    HasDone settings grammar resolve o ((removeCategory name choice).outline? c o) saved s' := by
  obtain ⟨group, s₁, hgroup, hrest⟩ :=
    SessionChange.exists_of_bind_ok (on_expectWritable_bind h hact)
  rw [SessionChange.on_chooseGroup] at hgroup
  obtain ⟨hchosen, rfl⟩ := Prod.mk.inj hgroup
  rw [SessionChange.on_perform] at hrest
  obtain ⟨hresult, rfl⟩ := Prod.mk.inj hrest
  have hkey : Targeting.Change.removeCategory (c.categoryKey name) ≠ .addCategory "" := nofun
  obtain ⟨place, outline, keys, hplace, rfl, hkeys, hfound, hafter⟩ :=
    isEditing_of_change h hchosen hkey rfl
  have hcall : (Session.changeCall group (.removeCategory (c.categoryKey name))).action.on s
      = (((Session.removeCategory group (c.categoryKey name)).on s).1.map Tree.Answer.found,
        ((Session.removeCategory group (c.categoryKey name)).on s).2) :=
    Session.Action.on_map ..
  rw [hcall] at hfound hafter
  rw [outline?, Option.bind_some, changedAt?_eq_some hplace hkeys]
  refine ⟨rfl, hafter, ?_⟩
  rintro rfl
  -- nothing was found, so the key is not among those of the group
  have hnone : (Targeting.Change.removeCategory (c.categoryKey name)).finds? keys
      = some false := by
    cases hremoved : ((Session.removeCategory group (c.categoryKey name)).on s).1 with
    | error e =>
      rw [hremoved] at hresult
      cases hresult
    | ok found =>
      rw [hremoved] at hresult hfound
      cases hresult
      exact (Except.ok.inj hfound).symm
  have habsent : c.categoryKey name ∉ keys := of_decide_eq_false (Option.some.inj hnone)
  exact congrArg some (alter_eq_self hkeys (congrArg some (List.erase_of_not_mem habsent)))

/-- A change that succeeds leads to its outline, and asks for saving unless the outline is as it
was. -/
theorem hasDone_act (hact : (change.act c).on s = (.ok saved, s')) :
    HasDone settings grammar resolve o (change.outline? c o) saved s' := by
  cases change with
  | enable => exact hasDone_enable h hact
  | addGroup role => exact hasDone_addGroup h hact
  | addCategory name choice => exact hasDone_addCategory h hact
  | removeCategory name choice => exact hasDone_removeCategory h hact

end Act

end Change

end Targeting.CommandLine
