import Targeting.Files.Tree

/-!
# Lawful access to files

What programs may rely on when they read and write files: a path leads to a place, and a file at a
place holds text or bytes. Reading and asking change nothing. Writing either puts a text into the
file that the path leads to, and leaves all others as they were, or fails and changes no file. Trees
of files keep these laws.

## Main definitions

* `LawfulFiles` — the laws of reading and writing
* `LawfulFiles.Holds` — a path leads to a file with the given text
* `LawfulFiles.SameContents`, `LawfulFiles.SameContentsBut` — no file has changed, or none but one

## Main results

* `FileTree.entry?_put` — putting an entry changes no other one
* `FileTree.locate_of_target` — a text is put where its path leads
-/

namespace Targeting

/-- Files that programs read and write through paths. Files stand at places; a path leads to a place,
also when no file stands there yet. -/
class LawfulFiles (σ : Type) [FileAccess (StateM σ)] where
  /-- Where files can stand. -/
  Place : Type
  /-- The place that a path leads to. -/
  place? : σ → String → Option Place
  /-- What the file at a place holds, if there is one. -/
  content? : σ → Place → Option FileContent
  /-- Reading changes nothing, and gives the text of the file that the path leads to. -/
  read_on : ∀ files path, ∃ result,
    (FileAccess.read path : StateM σ _).run files = (result, files) ∧
      ∀ text, result = .ok text ↔
        ∃ place, place? files path = some place ∧ content? files place = some (.text text)
  /-- Asking changes nothing. -/
  isPresent_on : ∀ files path, ∃ answer,
    (FileAccess.isPresent path : StateM σ _).run files = (answer, files)
  /-- Writing replaces the text in one file, or changes none. -/
  write_on : ∀ files path text, ∃ result files',
    (FileAccess.write path text : StateM σ _).run files = (result, files') ∧
      match result with
      | .ok () => ∃ place, place? files path = some place ∧ place? files' path = some place ∧
          content? files' place = some (.text text) ∧
          ∀ other, other ≠ place → content? files' other = content? files other
      | .error _ => ∀ place, content? files' place = content? files place

namespace LawfulFiles

variable {σ : Type} [FileAccess (StateM σ)] [LawfulFiles σ]

/-- A path leads to a file with the given text. -/
def Holds (files : σ) (path text : String) : Prop :=
  ∃ place, place? files path = some place ∧ content? files place = some (.text text)

theorem Holds.unique {files : σ} {path text text' : String} (h : Holds files path text)
    (h' : Holds files path text') : text = text' := by
  obtain ⟨place, hplace, hcontent⟩ := h
  obtain ⟨place', hplace', hcontent'⟩ := h'
  cases hplace.symm.trans hplace'
  cases hcontent.symm.trans hcontent'
  rfl

/-- Every file holds what it held. -/
def SameContents (files files' : σ) : Prop :=
  ∀ place : Place σ, content? files' place = content? files place

/-- Every file holds what it held but for the one that the path leads to. -/
def SameContentsBut (path : String) (files files' : σ) : Prop :=
  ∃ place, place? files path = some place ∧
    ∀ other, other ≠ place → content? files' other = content? files other

end LawfulFiles

/-- Two steps that succeed do so one after the other. -/
theorem exists_of_bind_eq_ok {ε α β : Type} {x : Except ε α} {f : α → Except ε β} {b : β}
    (h : x >>= f = .ok b) : ∃ a, x = .ok a ∧ f a = .ok b := by
  cases x with
  | error e => cases h
  | ok a => exact ⟨a, rfl, h⟩

/-- A value that is left when failures are forgotten is the result. -/
theorem eq_ok_of_toOption {ε α : Type} {x : Except ε α} {a : α} (h : x.toOption = some a) :
    x = .ok a := by
  cases x with
  | error e => cases h
  | ok b =>
    cases h
    rfl

/-! ### Trees of files -/

namespace FileTree

variable {t : FileTree} {here location : Location} {path name : String} {names : List String}
  {entry : FileEntry}

/-- What the file at a location holds. -/
def content? (t : FileTree) (location : Location) : Option FileContent :=
  match t.entry? location with
  | some (.file content) => some content
  | _ => none

theorem find?_putEntry (location other : Location) (entry : FileEntry)
    (entries : List (Location × FileEntry)) :
    ((putEntry location entry entries).find? (·.1 = other)).map (·.2)
      = if other = location then some entry else (entries.find? (·.1 = other)).map (·.2) := by
  induction entries with
  | nil => by_cases h : other = location <;> simp [putEntry, h, eq_comm]
  | cons e entries ih =>
    rw [putEntry]
    split
    · next heq =>
      by_cases h : other = location
      · simp [h]
      · simp [h, heq, Ne.symm h]
    · next hne =>
      by_cases h : e.1 = other
      · subst h
        simp [hne]
      · rw [List.find?_cons_of_neg (by simpa using h), List.find?_cons_of_neg (by simpa using h)]
        exact ih

theorem ne_nil_of_not_directory (h : t.entry? location ≠ some .directory) : location ≠ [] := by
  rintro rfl
  exact h rfl

/-- Putting an entry changes no other one. -/
theorem entry?_put (hlocation : location ≠ []) (entry : FileEntry) (other : Location) :
    FileTree.entry? (t.put location entry) other
      = if other = location then some entry else t.entry? other := by
  cases other with
  | nil => rw [if_neg (Ne.symm hlocation)]; rfl
  | cons name names => exact find?_putEntry location (name :: names) entry t.entries

/-! ### Paths -/

theorem entry?_of_step (h : t.step here name = .ok location) :
    t.entry? here = some .directory := by
  unfold step at h
  split at h
  · cases h
  · cases h
  · assumption

section Put

variable (hfree : t.entry? location ≠ some .directory) (entry : FileEntry)
include hfree

/-- A file is put where no directory is, so a path that leads on there still does. -/
theorem step_put {next : Location} (h : t.step here name = .ok next) :
    (t.put location entry).step here name = .ok next := by
  have hhere := entry?_of_step h
  have hsame : FileTree.entry? (t.put location entry) here = t.entry? here := by
    rw [entry?_put (ne_nil_of_not_directory hfree), if_neg]
    rintro rfl
    exact hfree hhere
  rw [step, hhere] at h
  rw [step, hsame, hhere]
  exact h

theorem follow_put {next : Location} (h : t.follow here names = .ok next) :
    (t.put location entry).follow here names = .ok next := by
  induction names generalizing here with
  | nil => exact h
  | cons name names ih =>
    rw [follow, List.foldlM_cons] at h ⊢
    obtain ⟨here', hstep, h⟩ := exists_of_bind_eq_ok h
    rw [step_put hfree entry hstep]
    exact ih h

theorem locate_put {next : Location} (h : t.locate path = .ok next) :
    (t.put location entry).locate path = .ok next := by
  obtain ⟨_, hpath, h⟩ := exists_of_bind_eq_ok h
  rw [locate, hpath]
  exact follow_put hfree entry h

end Put

/-- A text is put where its path leads, and not in the place of a directory. -/
theorem locate_of_target (h : t.target path = .ok location) :
    t.locate path = .ok location ∧ t.entry? location ≠ some .directory := by
  unfold target at h
  obtain ⟨_, -, h⟩ := exists_of_bind_eq_ok h
  obtain ⟨_, hpath, h⟩ := exists_of_bind_eq_ok h
  dsimp only at h
  split at h
  · cases h
  · next last above hslashed =>
    obtain ⟨here, hhere, h⟩ := exists_of_bind_eq_ok h
    obtain ⟨location', hstep, h⟩ := exists_of_bind_eq_ok h
    split at h
    · cases h
    · split at h
      · cases h
      · next hslash =>
        split at h
        · cases h
        · next hfree =>
          cases h
          refine ⟨?_, hfree⟩
          -- the path does not end in a slash, so none of its names were left out
          have hreverse : (Path.names path).reverse = last :: above := by
            rw [← hslashed]
            cases hnames : (Path.names path).reverse with
            | nil => rfl
            | cons name names =>
              rw [hnames] at hslash
              rw [List.dropWhile_cons_of_neg]
              simpa using hslash
          have hnames : Path.names path = above.reverse ++ [last] := by
            rw [← List.reverse_reverse (Path.names path), hreverse, List.reverse_cons]
          rw [locate, hpath, hnames]
          change t.follow (t.start path) (above.reverse ++ [last]) = _
          rw [follow, List.foldlM_append, ← follow, hhere]
          exact congrArg (· >>= pure) hstep

/-! ### Access -/

theorem read_eq_ok_iff {text : String} :
    t.read path = .ok text ↔ ∃ location, (t.locate path).toOption = some location ∧
      t.content? location = some (.text text) := by
  unfold read
  cases t.locate path with
  | error e => simp [bind, Except.bind, Except.toOption]
  | ok location =>
    simp only [bind, Except.bind, Except.toOption, Option.some.injEq, exists_eq_left', content?]
    rcases t.entry? location with _ | _ | (_ | _) <;> simp

theorem content?_put (hlocation : location ≠ []) (content : FileContent) (other : Location) :
    (t.put location (.file content)).content? other
      = if other = location then some content else t.content? other := by
  rw [content?, entry?_put hlocation]
  by_cases h : other = location
  · rw [if_pos h, if_pos h]
  · rw [if_neg h, if_neg h, content?]

/-- Writing succeeds at the location that the path leads to, or leaves the tree as it was. -/
theorem write_cases (t : FileTree) (path text : String) :
    (∃ e, t.write path text = .error e) ∨ ∃ location, t.locate path = .ok location ∧
      t.entry? location ≠ some .directory ∧
      t.write path text = .ok (t.put location (.file (.text text))) := by
  unfold write
  cases htarget : t.target path with
  | error e => exact Or.inl ⟨e, rfl⟩
  | ok location =>
    obtain ⟨hlocate, hfree⟩ := locate_of_target htarget
    exact Or.inr ⟨location, hlocate, hfree, rfl⟩

theorem run_write (t : FileTree) (path text : String) :
    (FileAccess.write path text : StateM FileTree _).run t = match t.write path text with
      | .ok t' => (.ok (), t')
      | .error e => (.error e, t) := by
  rw [FileAccess.write, instFileAccessStateM]
  dsimp only
  rw [StateT.run_bind, StateT.run_get, pure_bind]
  dsimp only
  cases t.write path text <;> rfl

instance : LawfulFiles FileTree where
  Place := Location
  place? t path := (t.locate path).toOption
  content? := content?
  read_on t path := ⟨t.read path, rfl, fun _ => read_eq_ok_iff⟩
  isPresent_on t path := ⟨t.isPresent path, rfl⟩
  write_on t path text := by
    rw [run_write]
    obtain ⟨e, he⟩ | ⟨location, hlocate, hfree, hwrite⟩ := t.write_cases path text
    · rw [he]
      exact ⟨_, _, rfl, fun _ => rfl⟩
    · have hcontent := content?_put (t := t) (ne_nil_of_not_directory hfree) (.text text)
      rw [hwrite]
      refine ⟨_, _, rfl, location, by rw [hlocate]; rfl, ?_, ?_, fun other hne => ?_⟩
      · rw [locate_put hfree _ hlocate]
        rfl
      · rw [hcontent, if_pos rfl]
      · rw [hcontent, if_neg hne]

end FileTree

end Targeting
