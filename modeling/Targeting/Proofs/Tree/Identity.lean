import Targeting.Proofs.Tree.Run

/-!
# Identifiers are handed out once

A slot that was given up is filled again, but under another identifier: an identifier names its slot
together with a generation, and a removal ends the generation for good. So an identifier is taken
from the moment at which it is handed out, whatever becomes of its node, and a tree never hands out
an identifier that is taken.

## Main definitions

* `Arena.IsTaken` — an identifier that denotes a value, or whose generation is over
* `Arena.HandsOut` — what becomes of identifiers while some of them are handed out
* `Edit.Issues`, `Tree.IsHistory` — the identifiers that creating nodes returns, in an edit and from
  the empty tree to the end of a run of calls

## Main results

* `Edit.Issues.handsOut`, `Tree.IsHistory.handsOut` — an edit, and a whole run, hand out free
  identifiers only
* `Tree.IsInitial.exists_isHistory` — every run has such a history
* `Tree.node?_after_eq_none` — a taken identifier without a node never gets one
-/

namespace Targeting

namespace Arena

variable {α : Type} {a b c : Arena α} {id : NodeId} {ids ids' : List NodeId}

/-- An identifier that is not free any more: it denotes a value, or its generation is over. -/
def IsTaken (a : Arena α) (id : NodeId) : Prop :=
  (∃ value, a.get? id = some value) ∨ id.generation < a.generation

theorem generation_nextId (a : Arena α) : a.nextId.generation = a.generation := by
  unfold nextId
  cases a.vacant <;> rfl

theorem WellFormed.not_isTaken_nextId (h : a.WellFormed) : ¬ a.IsTaken a.nextId := by
  rintro (⟨value, hget⟩ | hlt)
  · rw [h.get?_nextId] at hget
    cases hget
  · rw [generation_nextId] at hlt
    omega

/-- What becomes of identifiers between two states of an arena: those in the list were free and are
taken now, no other one came to denote a value, and what was taken still is. -/
structure HandsOut (a b : Arena α) (ids : List NodeId) : Prop where
  isTaken : ∀ {id}, a.IsTaken id → b.IsTaken id
  live_or_mem : ∀ {id value}, b.get? id = some value →
    (∃ value, a.get? id = some value) ∨ id ∈ ids
  fresh : ∀ id ∈ ids, ¬ a.IsTaken id ∧ b.IsTaken id
  nodup : ids.Nodup

namespace HandsOut

theorem refl (a : Arena α) : HandsOut a a [] where
  isTaken h := h
  live_or_mem h := Or.inl ⟨_, h⟩
  fresh := by simp
  nodup := List.nodup_nil

/-- What is handed out first is taken by the time the rest is handed out. -/
theorem trans (h : HandsOut a b ids) (h' : HandsOut b c ids') : HandsOut a c (ids ++ ids') where
  isTaken htaken := h'.isTaken (h.isTaken htaken)
  live_or_mem hget := by
    rcases h'.live_or_mem hget with ⟨value, hb⟩ | hmem
    · rcases h.live_or_mem hb with ha | hmem
      · exact Or.inl ha
      · exact Or.inr (List.mem_append_left _ hmem)
    · exact Or.inr (List.mem_append_right _ hmem)
  fresh id hmem := by
    rcases List.mem_append.mp hmem with hmem | hmem
    · exact ⟨(h.fresh id hmem).1, h'.isTaken (h.fresh id hmem).2⟩
    · exact ⟨fun htaken => (h'.fresh id hmem).1 (h.isTaken htaken), (h'.fresh id hmem).2⟩
  nodup := by
    refine h.nodup.append h'.nodup ?_
    intro id hmem hmem'
    exact (h'.fresh id hmem').1 (h.fresh id hmem).2

/-- A taken identifier without a value does not get one. -/
theorem get?_eq_none (h : HandsOut a b ids) (htaken : a.IsTaken id) (hnone : a.get? id = none) :
    b.get? id = none := by
  rw [Option.eq_none_iff_forall_ne_some]
  intro value hget
  rcases h.live_or_mem hget with ⟨value', hsome⟩ | hmem
  · rw [hnone] at hsome
    cases hsome
  · exact (h.fresh id hmem).1 htaken

theorem modify (a : Arena α) (id : NodeId) (f : α → α) : HandsOut a (a.modify id f) [] where
  isTaken {x} htaken := by
    have hgeneration : (a.modify id f).generation = a.generation := by
      unfold Arena.modify
      cases a.get? id <;> rfl
    refine htaken.imp ?_ fun hlt => hgeneration ▸ hlt
    rintro ⟨value, hget⟩
    rw [get?_modify]
    by_cases hx : x = id
    · subst hx
      simp [hget]
    · simp [hx, hget]
  live_or_mem {x value} hget := by
    rw [get?_modify] at hget
    split at hget
    · next hx =>
      obtain ⟨old, hold, -⟩ := Option.map_eq_some_iff.mp hget
      exact Or.inl ⟨old, hx ▸ hold⟩
    · exact Or.inl ⟨value, hget⟩
  fresh := by simp
  nodup := List.nodup_nil

section WellFormed

variable (h : a.WellFormed)
include h

theorem insert (value : α) : HandsOut a (a.insert value).2 [a.nextId] where
  isTaken {x} htaken := by
    -- filling a slot does not end the generation
    have hgeneration : (a.insert value).2.generation = a.generation := by
      unfold Arena.insert
      cases a.vacant <;> rfl
    refine htaken.imp ?_ fun hlt => hgeneration ▸ hlt
    rintro ⟨stored, hget⟩
    rw [h.get?_insert]
    split
    · exact ⟨value, rfl⟩
    · exact ⟨stored, hget⟩
  live_or_mem {x stored} hget := by
    rw [h.get?_insert] at hget
    split at hget
    · next hx => exact Or.inr (hx ▸ List.mem_singleton_self _)
    · exact Or.inl ⟨stored, hget⟩
  fresh := by
    intro x hx
    rw [List.mem_singleton.mp hx]
    refine ⟨h.not_isTaken_nextId, Or.inl ⟨value, ?_⟩⟩
    rw [h.get?_insert, if_pos rfl]
  nodup := List.nodup_singleton _

/-- What is removed stays taken, since the removal ends the generation. -/
theorem remove (id : NodeId) : HandsOut a (a.remove id) [] where
  isTaken {x} htaken := by
    have hgeneration : (a.remove id).generation
        = if a.contains id then a.generation + 1 else a.generation := by
      unfold Arena.remove
      split <;> rfl
    have hle : a.generation ≤ (a.remove id).generation := by
      rw [hgeneration]
      split <;> omega
    -- only the removed identifier stops to denote its value, and its generation is over
    rcases htaken with ⟨value, hget⟩ | hlt
    · by_cases hx : x = id
      · subst hx
        have hfilled := h.generation_le _ _ _ (get?_eq_some_iff.mp hget)
        rw [if_pos (contains_iff.mpr ⟨value, hget⟩)] at hgeneration
        refine Or.inr ?_
        omega
      · exact Or.inl ⟨value, by rw [get?_remove, if_neg hx, hget]⟩
    · exact Or.inr (Nat.lt_of_lt_of_le hlt hle)
  live_or_mem {x value} hget := by
    rw [get?_remove] at hget
    split at hget
    · cases hget
    · exact Or.inl ⟨value, hget⟩
  fresh := by simp
  nodup := List.nodup_nil

end WellFormed

end HandsOut

end Arena

namespace Tree

variable {t : Tree}

theorem handsOut_discard (h : t.arena.WellFormed) (ids : List NodeId) :
    t.arena.HandsOut (t.discard ids).arena [] := by
  unfold discard
  generalize t.arena = a at h
  induction ids generalizing a with
  | nil => exact .refl a
  | cons id ids ih => exact (Arena.HandsOut.remove h id).trans (ih (a.remove id) (h.remove id))

theorem handsOut_prune (h : t.arena.WellFormed) (p c : NodeId) :
    t.arena.HandsOut (t.prune p c).arena [] :=
  (Arena.HandsOut.modify t.arena p _).trans (handsOut_discard (t := t.unlist p c) (h.modify p _) _)

end Tree

/-! ### Edits -/

namespace Edit

/-- The identifiers that `create` returns while an edit runs on a tree, in order. An edit that is
composed of others returns what they return, up to the first failure. -/
inductive Issues : ∀ {α : Type}, Edit α → Tree → List NodeId → Prop
  | create {kind : NodeKind} {t t' : Tree} {id : NodeId}
      (hon : (create kind).on t = (.ok id, t')) : Issues (create kind) t [id]
  | setRoot (id : NodeId) (t : Tree) : Issues (setRoot id) t []
  | appendChild (p c : NodeId) (t : Tree) : Issues (appendChild p c) t []
  | removeChild (p c : NodeId) (t : Tree) : Issues (removeChild p c) t []
  | writeName (id : NodeId) (name : Option String) (t : Tree) :
      Issues (modify fun t => t.modifyNode id fun n => { n with displayName := name } :
        Edit PUnit) t []
  | pure {α : Type} (a : α) (t : Tree) : Issues (pure a : Edit α) t []
  | throw {α : Type} (e : TreeError) (t : Tree) : Issues (throw e : Edit α) t []
  | get (t : Tree) : Issues (get : Edit Tree) t []
  | bind {α β : Type} {x : Edit α} {f : α → Edit β} {t t' : Tree} {a : α}
      {ids ids' : List NodeId} (hon : x.on t = (.ok a, t')) (hx : Issues x t ids)
      (hf : Issues (f a) t' ids') : Issues (x >>= f) t (ids ++ ids')
  | bind_error {α β : Type} {x : Edit α} {f : α → Edit β} {t t' : Tree} {e : TreeError}
      {ids : List NodeId} (hon : x.on t = (.error e, t')) (hx : Issues x t ids) :
      Issues (x >>= f) t ids

variable {α : Type} {x : Edit α} {t : Tree} {ids : List NodeId}

/-- Every edit that is composed of structural edits issues some list of identifiers. -/
theorem covers_issues : CoversStructuralEdits fun {_} x => ∀ t, ∃ ids, Issues x t ids where
  pure a t := ⟨_, .pure a t⟩
  throw e t := ⟨_, .throw e t⟩
  get t := ⟨_, .get t⟩
  create kind t := ⟨_, .create (on_create kind t)⟩
  appendChild p c t := ⟨_, .appendChild p c t⟩
  removeChild p c t := ⟨_, .removeChild p c t⟩
  setRoot id t := ⟨_, .setRoot id t⟩
  bind {α β x f} hx hf t := by
    obtain ⟨ids, hids⟩ := hx t
    -- after a failure the rest is not run
    rcases hon : x.on t with ⟨e | a, t'⟩
    · exact ⟨ids, .bind_error hon hids⟩
    · obtain ⟨ids', hids'⟩ := hf a t'
      exact ⟨ids ++ ids', .bind hon hids hids'⟩

/-! ### Structural edits that issue nothing -/

theorem handsOut_setRoot (h : t.arena.WellFormed) (id : NodeId) :
    t.arena.HandsOut ((setRoot id).on t).2.arena [] := by
  obtain ⟨-, e, hfail⟩ | ⟨-, hset⟩ := on_setRoot id t
  · rw [hfail]
    exact .refl _
  · rw [hset]
    cases t.root with
    | none => exact .refl _
    | some old =>
      by_cases hold : old = id
      · simpa [hold] using .refl _
      · simp only [if_neg hold]
        exact Tree.handsOut_discard (t := { t with root := some id }) h _

theorem handsOut_appendChild (h : t.IsForest) (p c : NodeId) :
    t.arena.HandsOut ((appendChild p c).on t).2.arena [] := by
  obtain ⟨-, e, hfail⟩ | ⟨-, hdone⟩ := on_appendChild h p c
  · rw [hfail]
    exact .refl _
  · rw [hdone]
    exact (Arena.HandsOut.modify _ c _).trans (.modify _ p _)

theorem handsOut_removeChild (h : t.arena.WellFormed) (p c : NodeId) :
    t.arena.HandsOut ((removeChild p c).on t).2.arena [] := by
  obtain ⟨-, hfail⟩ | ⟨-, -, hno⟩ | ⟨-, hyes⟩ := on_removeChild p c t
  · rw [hfail]
    exact .refl _
  · rw [hno]
    exact .refl _
  · rw [hyes]
    exact Tree.handsOut_prune h p c

/-! ### Whole edits -/

/-- What an edit issues in a forest is fresh, and nothing else comes to denote a node. -/
theorem Issues.handsOut (h : Issues x t ids) (ht : t.IsForest) :
    (x.on t).2.IsForest ∧ t.arena.HandsOut (x.on t).2.arena ids := by
  -- the identifiers that are vacant come from the arena of a forest, so both are carried along
  induction h with
  | @create kind t t' id hon =>
    rw [on_create] at hon ⊢
    cases hon
    exact ⟨ht.create kind, .insert ht.wellFormed _⟩
  | setRoot id t => exact ⟨keeps_isForest_setRoot id t ht, handsOut_setRoot ht.wellFormed id⟩
  | appendChild p c t => exact ⟨keeps_isForest_appendChild p c t ht, handsOut_appendChild ht p c⟩
  | removeChild p c t =>
    exact ⟨keeps_isForest_removeChild p c t ht, handsOut_removeChild ht.wellFormed p c⟩
  | writeName id name t =>
    exact ⟨ht.of_nameless_eq (Tree.nameless_modifyNode t id fun _ => rfl), .modify _ id _⟩
  | pure | throw | get => exact ⟨ht, .refl _⟩
  | bind hon hx hf ihx ihf =>
    rw [on_bind_ok hon]
    obtain ⟨ht', hout⟩ := ihx ht
    rw [hon] at ht' hout
    obtain ⟨ht'', hout'⟩ := ihf ht'
    exact ⟨ht'', hout.trans hout'⟩
  | bind_error hon hx ih =>
    have hsame := ih ht
    rw [hon] at hsame
    rwa [on_bind_error hon]

end Edit

namespace Tree

variable {t start : Tree} {id : NodeId} {ids : List NodeId} {calls : List Call}

/-! ### Runs -/

/-- The identifiers issued by calls one after the other. -/
inductive Issues : Tree → List Call → List NodeId → Prop
  | nil (t : Tree) : Issues t [] []
  | cons {t : Tree} {call : Call} {calls : List Call} {ids ids' : List NodeId}
      (hcall : Edit.Issues call.edit t ids) (hcalls : Issues (call.edit.on t).2 calls ids') :
      Issues t (call :: calls) (ids ++ ids')

/-- The identifiers issued before a tree to start from is complete: none for the empty tree, and
those of all nodes for one that is read. -/
inductive Begins : Tree → List NodeId → Prop
  | empty : Begins .empty []
  | read {value : Json} {start : Tree} {ids : List NodeId} (hnull : value.isNull = false)
      (hread : Tree.ofJson value = .ok start)
      (hids : Edit.Issues (Expression.read value) .empty ids) : Begins start ids

/-- All identifiers issued from the beginning to the end of some calls. -/
def IsHistory (start : Tree) (calls : List Call) (ids : List NodeId) : Prop :=
  ∃ first later, Begins start first ∧ Issues start calls later ∧ ids = first ++ later

theorem exists_issues (t : Tree) (calls : List Call) : ∃ ids, Issues t calls ids := by
  induction calls generalizing t with
  | nil => exact ⟨[], .nil t⟩
  | cons call calls ih =>
    obtain ⟨ids, hids⟩ := call.covered Edit.covers_issues
      (fun id name t => ⟨[], .writeName id name t⟩) t
    obtain ⟨ids', hids'⟩ := ih (call.edit.on t).2
    exact ⟨ids ++ ids', .cons hids hids'⟩

/-- The tree that is read is the one that reading leaves behind. -/
theorem read_of_ofJson {value : Json} (hnull : value.isNull = false)
    (hread : Tree.ofJson value = .ok start) :
    (Expression.read value).on .empty = (.ok (), start) := by
  simp only [ofJson, hnull, Bool.false_eq_true, if_false] at hread
  split at hread
  · next hon =>
    cases hread
    exact hon
  · cases hread

theorem IsInitial.exists_begins (h : start.IsInitial) : ∃ ids, Begins start ids := by
  obtain rfl | ⟨value, hvalue⟩ := h
  · exact ⟨[], .empty⟩
  · cases hnull : value.isNull with
    | true =>
      simp only [ofJson, hnull, if_true, Except.ok.injEq] at hvalue
      exact ⟨[], hvalue ▸ .empty⟩
    | false =>
      obtain ⟨ids, hids⟩ := Edit.covers_issues.read value .empty
      exact ⟨ids, .read hnull hvalue hids⟩

theorem IsInitial.exists_isHistory (h : start.IsInitial) (calls : List Call) :
    ∃ ids, IsHistory start calls ids := by
  obtain ⟨first, hfirst⟩ := h.exists_begins
  obtain ⟨later, hlater⟩ := exists_issues start calls
  exact ⟨first ++ later, first, later, hfirst, hlater, rfl⟩

theorem Begins.handsOut (h : Begins start ids) : Tree.empty.arena.HandsOut start.arena ids := by
  cases h with
  | empty => exact .refl _
  | read hnull hread hids =>
    have hout := (hids.handsOut IsForest.empty).2
    rwa [read_of_ofJson hnull hread] at hout

/-- Each call hands out what it issues, and then the rest of the run does. -/
theorem Issues.handsOut (h : Issues t calls ids) (ht : t.IsForest) :
    t.arena.HandsOut (t.after calls).arena ids := by
  induction h with
  | nil t => exact .refl _
  | cons hcall hcalls ih =>
    obtain ⟨ht', hout⟩ := hcall.handsOut ht
    exact hout.trans (ih ht')

theorem IsHistory.handsOut (h : IsHistory start calls ids) (hstart : start.IsInitial) :
    Tree.empty.arena.HandsOut (start.after calls).arena ids := by
  obtain ⟨first, later, hfirst, hlater, rfl⟩ := h
  exact hfirst.handsOut.trans (hlater.handsOut hstart.isForest)

/-- In the empty tree nothing is live, so what is live at the end was issued on the way. -/
theorem IsHistory.mem_of_isLive (h : IsHistory start calls ids) (hstart : start.IsInitial)
    (hlive : (start.after calls).IsLive id) : id ∈ ids := by
  obtain ⟨n, hn⟩ := hlive
  rcases (h.handsOut hstart).live_or_mem hn with ⟨value, hempty⟩ | hmem
  · exact absurd hempty (by simp [Tree.empty, Arena.get?])
  · exact hmem

theorem after_append (t : Tree) (calls later : List Call) :
    t.after (calls ++ later) = (t.after calls).after later := List.foldl_append

/-- A taken identifier without a node stays without one. -/
theorem node?_after_eq_none (h : t.IsForest) (htaken : t.arena.IsTaken id)
    (hdead : t.node? id = none) (calls : List Call) : (t.after calls).node? id = none := by
  obtain ⟨ids, hids⟩ := exists_issues t calls
  exact (hids.handsOut h).get?_eq_none htaken hdead

end Tree

end Targeting
