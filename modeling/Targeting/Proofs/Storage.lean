import Targeting.Proofs.Files.Lawful
import Targeting.Proofs.Session.Written
import Targeting.Storage

/-!
# Saving keeps everything but the expression

Loading and saving are each one access to a file. Whatever is done to a session that was opened on a
file, saving it writes the members that the file held, with the expression of the session in place of
the stored one, and loading what was written gives the settings of the session. Fractions are the one
thing that a text need not give back exactly, so they are assumed to read back.

## Main definitions

* `settingsIn`, `Editor.sessionOn` — what loading and opening make of what was read

## Main results

* `run_loadSettings`, `Editor.run_openSession`, `run_saveSession` — one access to a file each
* `saving_keeps_everything_else` — what is written after any run
-/

namespace Targeting

/-- What loading makes of the result of reading a file. -/
def settingsIn (path : String) : Except FileError String → Except StorageError EntitySettings
  | .error _ => .error (.stepFailed .readSettings path)
  | .ok text =>
    match EntitySettings.read? text with
    | none => .error (.stepFailed .parseSettings path)
    | some settings => .ok settings

/-- The session on loaded settings, if their expression can be read. -/
def Editor.sessionOn (editor : Editor) (settings : EntitySettings) : Except StorageError Session :=
  match Session.load.on
    (Session.create settings editor.configuration.grammar editor.resolve) with
  | (.ok (), session) => .ok session
  | (.error e, _) => .error (.session e)

/-- What saving makes of the result of writing a file. -/
def savedAt (path : String) : Except FileError Unit → Except StorageError Unit
  | .error _ => .error (.stepFailed .writeSettings path)
  | .ok () => .ok ()

/-! ### One access to a file -/

section

variable {m : Type → Type} [Monad m] [LawfulMonad m] [FileAccess m] {ε α : Type}

theorem run_read_bind (path : String) (f : Except FileError String → ExceptT ε m α) :
    (FileAccess.read path >>= f : ExceptT ε m α).run
      = FileAccess.read path >>= fun result => (f result).run := by
  have hread : (FileAccess.read path : ExceptT ε m _).run = Except.ok <$> FileAccess.read path := rfl
  rw [ExceptT.run_bind, hread, map_eq_pure_bind, bind_assoc]
  congr 1
  funext result
  rw [pure_bind]

theorem run_write_bind (path text : String) (f : Except FileError Unit → ExceptT ε m α) :
    (FileAccess.write path text >>= f : ExceptT ε m α).run
      = FileAccess.write path text >>= fun result => (f result).run := by
  have hwrite : (FileAccess.write path text : ExceptT ε m _).run
      = Except.ok <$> FileAccess.write path text := rfl
  rw [ExceptT.run_bind, hwrite, map_eq_pure_bind, bind_assoc]
  congr 1
  funext result
  rw [pure_bind]

theorem run_loadSettings (path : String) :
    (loadSettings path : ExceptT StorageError m _).run
      = settingsIn path <$> FileAccess.read path := by
  rw [loadSettings, run_read_bind, map_eq_pure_bind]
  congr 1
  funext result
  cases result with
  | error e => rfl
  | ok text =>
    dsimp only [settingsIn]
    cases EntitySettings.read? text <;> rfl

theorem run_saveSession (path : String) (session : Session) :
    (saveSession path session : ExceptT StorageError m _).run
      = savedAt path <$> FileAccess.write path session.toSettings.write := by
  rw [saveSession, run_write_bind, map_eq_pure_bind]
  congr 1
  funext result
  cases result <;> rfl

theorem Editor.run_openSession (editor : Editor) (path : String) :
    (editor.openSession path : ExceptT StorageError m _).run
      = (fun result => (settingsIn path result).bind editor.sessionOn) <$> FileAccess.read path := by
  rw [openSession, ExceptT.run_bind, run_loadSettings, map_eq_pure_bind, map_eq_pure_bind, bind_assoc]
  congr 1
  funext result
  rw [pure_bind]
  cases settingsIn path result with
  | error e => rfl
  | ok settings =>
    dsimp only [Except.bind, sessionOn]
    rcases Session.load.on _ with ⟨_ | _, session⟩ <;> rfl

end

/-! ### Files -/

/-- The result of loading or saving, and the files afterwards. -/
def onFiles {σ α : Type} (action : ExceptT StorageError (StateM σ) α) (files : σ) :
    Except StorageError α × σ :=
  (ExceptT.run action).run files

section

variable {σ : Type} [FileAccess (StateM σ)] [LawfulFiles σ] {files files' : σ}
  {path text : String} {settings : EntitySettings} {s : Session} {ms : List (String × Json)}

/-- What is loaded from a file is what its text holds. -/
theorem onFiles_loadSettings (hholds : LawfulFiles.Holds files path text)
    (hread : EntitySettings.read? text = some settings) :
    onFiles (loadSettings path) files = (.ok settings, files) := by
  obtain ⟨result, hon, hresult⟩ := LawfulFiles.read_on files path
  rw [onFiles, run_loadSettings, StateT.run_map, hon, (hresult text).mpr hholds]
  change (settingsIn path (.ok text), files) = _
  rw [settingsIn, hread]

/-- A session is opened on what the text of a file holds. -/
theorem onFiles_openSession (editor : Editor) (hholds : LawfulFiles.Holds files path text)
    (hread : EntitySettings.read? text = some settings) :
    onFiles (editor.openSession path) files = (editor.sessionOn settings, files) := by
  obtain ⟨result, hon, hresult⟩ := LawfulFiles.read_on files path
  rw [onFiles, Editor.run_openSession, StateT.run_map, hon, (hresult text).mpr hholds]
  change ((settingsIn path (.ok text)).bind editor.sessionOn, files) = _
  rw [settingsIn, hread]
  rfl

/-- Saving writes the settings of the session to the file that the path leads to, or changes no
file. -/
theorem onFiles_saveSession_cases (path : String) (s : Session) (files : σ) :
    (∃ files', onFiles (saveSession path s) files = (.ok (), files') ∧
      LawfulFiles.Holds files' path s.toSettings.write ∧
      LawfulFiles.SameContentsBut path files files') ∨
    ∃ files', onFiles (saveSession path s) files
        = (.error (.stepFailed .writeSettings path), files') ∧
      LawfulFiles.SameContents files files' := by
  obtain ⟨result, files', hon, hresult⟩ := LawfulFiles.write_on files path s.toSettings.write
  rw [onFiles, run_saveSession, StateT.run_map, hon]
  cases result with
  | ok _ =>
    obtain ⟨place, hplace, hplace', hcontent, hsame⟩ := hresult
    exact Or.inl ⟨files', rfl, ⟨place, hplace', hcontent⟩, place, hplace, hsame⟩
  | error e => exact Or.inr ⟨files', rfl, hresult⟩

/-- A session that was opened on a file is on the settings in the text of the file, and its
expression has been read. -/
theorem holds_of_openSession {editor : Editor}
    (hopen : onFiles (editor.openSession path) files = (.ok s, files')) :
    files' = files ∧ ∃ text settings, LawfulFiles.Holds files path text ∧
      EntitySettings.read? text = some settings ∧ editor.sessionOn settings = .ok s := by
  obtain ⟨result, hon, hresult⟩ := LawfulFiles.read_on files path
  rw [onFiles, Editor.run_openSession, StateT.run_map, hon] at hopen
  obtain ⟨hs, hfiles⟩ := Prod.ext_iff.mp hopen
  refine ⟨hfiles.symm, ?_⟩
  cases result with
  | error e => cases hs
  | ok text =>
    cases hread : EntitySettings.read? text with
    | none =>
      change (settingsIn path (.ok text)).bind editor.sessionOn = .ok s at hs
      rw [settingsIn, hread] at hs
      cases hs
    | some settings =>
      change (settingsIn path (.ok text)).bind editor.sessionOn = .ok s at hs
      rw [settingsIn, hread] at hs
      exact ⟨text, settings, (hresult text).mp rfl, hread, hs⟩

/-- What opening leads to is what loading the expression leads to. -/
theorem Editor.load_of_sessionOn {editor : Editor} (h : editor.sessionOn settings = .ok s) :
    Session.load.on (Session.create settings editor.configuration.grammar editor.resolve)
      = (.ok (), s) := by
  unfold sessionOn at h
  split at h
  · next hon =>
    cases h
    exact hon
  · cases h

/-- A stored expression is the value of a member, if there is one. -/
theorem EntitySettings.expression_eq_null_or (hread : EntitySettings.ofMembers? ms = some settings) :
    settings.expression = .null ∨ ∃ m ∈ ms, settings.expression = m.2 := by
  obtain ⟨-, -, htargeting, -⟩ := EntitySettings.ofMembers?_eq_some hread
  rw [expression, htargeting]
  cases hlookup : Json.lookup? "audienceTargeting" ms with
  | none => exact Or.inl rfl
  | some value => exact Or.inr ⟨_, Json.mem_of_lookup? hlookup, getD_present? value⟩

/-- What a session on stored settings writes can be read again. -/
theorem Session.WritesKnown.isStorable_of_read? (hw : s.WritesKnown)
    (hvalue : Json.read? text = some (.object ms))
    (hread : EntitySettings.ofMembers? ms = some s.settings) :
    s.written.IsStorable (Json.greatestDepth - 1) := by
  apply hw.isStorable
  cases Json.isStorable_of_read? hvalue with
  | object hsorted hvalues =>
    obtain hnull | ⟨m, hm, hexpression⟩ := EntitySettings.expression_eq_null_or hread
    · rw [hnull]
      exact .null
    · rw [hexpression]
      exact hvalues m hm

/-- The settings of a session on stored settings are read from the text that is written for them. -/
theorem Session.WritesKnown.read?_write (hw : s.WritesKnown)
    (hvalue : Json.read? text = some (.object ms))
    (hread : EntitySettings.ofMembers? ms = some s.settings) :
    Json.read? s.toSettings.write = some (.object (Json.sortMembers s.toSettings.reread.members)) ∧
      EntitySettings.read? s.toSettings.write = some s.toSettings.reread := by
  rw [s.toSettings_eq]
  exact EntitySettings.read?_write_of_read? hvalue hread (hw.isStorable_of_read? hvalue hread)

/-- They are read as they are if the fractions that were stored read back. -/
theorem Session.WritesKnown.reread_toSettings (hw : s.WritesKnown)
    (hvalue : Json.read? text = some (.object ms))
    (hread : EntitySettings.ofMembers? ms = some s.settings)
    (hfractions : ∀ x ∈ (Json.object ms).fractions, (Json.Number.float x).ReadsBack) :
    s.toSettings.reread = s.toSettings := by
  obtain ⟨hsorted, hvalues⟩ : Json.IsSorted ms ∧
      ∀ m ∈ ms, m.2.IsStorable (Json.greatestDepth - 1) := by
    cases Json.isStorable_of_read? hvalue with
    | object hsorted hvalues => exact ⟨hsorted, hvalues⟩
  have hback : ∀ m ∈ ms, ∀ x ∈ m.2.fractions, (Json.Number.float x).ReadsBack :=
    fun m hm x hx => hfractions x (Json.fractions_subset_of_mem_members hm hx)
  -- the expression that is written has no fraction that was not stored
  have hwritten : s.written.reread = s.written := by
    refine (hw.isStorable_of_read? hvalue hread).reread_eq fun x hx => ?_
    have hx' := hw.fractions_subset hx
    obtain hnull | ⟨m, hm, hexpression⟩ := EntitySettings.expression_eq_null_or hread
    · rw [hnull] at hx'
      cases hx'
    · rw [hexpression] at hx'
      exact hback m hm x hx'
  rw [s.toSettings_eq]
  refine ((EntitySettings.isProper_of_ofMembers? hread).with_expression s.written).reread_eq
    fun m hm => ?_
  rcases EntitySettings.mem_of_mem_members hsorted hread hm with heq | hm
  · rw [heq, hwritten]
  · exact (hvalues m hm).reread_eq (hback m hm)

/-- A session that was opened is sound, is on the settings that were read, and shows what is
stored. -/
theorem Editor.isSound_of_sessionOn {editor : Editor} (h : editor.sessionOn settings = .ok s) :
    s.IsSound ∧ s.settings = settings ∧ s.ShowsStored := by
  have hon := load_of_sessionOn h
  have hcreate := Session.isSound_create settings editor.configuration.grammar editor.resolve
  have hsound := hcreate.event .load
  have hsettings := (hcreate.settings_grammar_event .load).1
  have hshows := Session.showsStored_load
    (Session.create settings editor.configuration.grammar editor.resolve)
  rw [Session.Event.action, Session.Action.on_map, hon] at hsound hsettings
  rw [hon] at hshows
  exact ⟨hsound, hsettings, hshows⟩

/-- After any run of a session that was opened on a file, saving writes the members that the file
held, with the expression of the session in place of the stored one and without fields that are
`null`, and what was written is loaded as the settings of the session; or it changes no file. -/
theorem saving_keeps_everything_else (editor : Editor) (path path' : String)
    (events : List Session.Event) (hholds : LawfulFiles.Holds files path text)
    (hvalue : Json.read? text = some (.object ms))
    (hopen : onFiles (editor.openSession path) files = (.ok s, files'))
    (hfractions : ∀ x ∈ (Json.object ms).fractions, (Json.Number.float x).ReadsBack) :
    ∃ text',
      Json.read? text'
        = some (.object (EntitySettings.withExpression (s.after events).written ms)) ∧
      ∀ now : σ,
        (∃ later, onFiles (saveSession path' (s.after events)) now = (.ok (), later) ∧
          LawfulFiles.Holds later path' text' ∧ LawfulFiles.SameContentsBut path' now later ∧
          onFiles (loadSettings path') later = (.ok (s.after events).toSettings, later)) ∨
        ∃ later, onFiles (saveSession path' (s.after events)) now
            = (.error (.stepFailed .writeSettings path'), later) ∧
          LawfulFiles.SameContents now later := by
  obtain ⟨-, text₀, settings, hholds₀, hread, hon⟩ := holds_of_openSession hopen
  -- the session was opened on the text that the file is known to hold
  obtain rfl := hholds.unique hholds₀
  obtain ⟨ms₀, hvalue₀, hsorted, hmembers⟩ := EntitySettings.exists_object_of_read? hread
  cases hvalue.symm.trans hvalue₀
  obtain ⟨hsound, rfl, hshows⟩ := Editor.isSound_of_sessionOn hon
  have hkept := (hsound.settings_grammar_after events).1
  rw [← hkept] at hmembers
  -- whatever the run did, what is written is known to be storable
  have hwrites := hshows.writesKnown.after hsound events
  obtain ⟨hobject, hloads⟩ := hwrites.read?_write hvalue hmembers
  rw [hwrites.reread_toSettings hvalue hmembers hfractions] at hobject hloads
  rw [Session.toSettings_eq, EntitySettings.sortMembers_members hsorted hmembers,
    ← Session.toSettings_eq] at hobject
  refine ⟨_, hobject, fun now => ?_⟩
  obtain ⟨later, hsave, hlater, hbut⟩ | hfails :=
    onFiles_saveSession_cases path' (s.after events) now
  · exact Or.inl ⟨later, hsave, hlater, hbut, onFiles_loadSettings hlater hloads⟩
  · exact Or.inr hfails

end

/-- A file with an expression, a field that is `null`, an unknown member that is `null` and a fraction.
Without an edit the expression is written as it was stored, and a category that is added stands behind
the stored one. The field that is `null` is left out both times, and the other members stay. -/
theorem saving_keeps_everything_else_with_and_without_edit :
    ∃ (files unedited edited : FileTree) (s : Session) (text text' : String),
      let others : List (String × Json) :=
        [("tag", .null), ("weight", .number (.float ⟨false, 2 ^ 52, -53⟩))]
      let one : Json := .object [("category", .string "p:1")]
      let two : Json := .object [("category", .string "p:2")]
      let stored : Json := .object [("and", .array [.object [("or", .array [one])]])]
      let extended : Json := .object [("and", .array [.object [("or", .array [one, two])]])]
      LawfulFiles.Holds files "f"
        (Json.object (("audienceTargeting", stored) :: ("id", .null) :: others)).compact ∧
      onFiles (({} : Editor).openSession "f") files = (.ok s, files) ∧
      onFiles (saveSession "f" s) files = (.ok (), unedited) ∧
      LawfulFiles.Holds unedited "f" text ∧
      Json.read? text = some (.object (("audienceTargeting", stored) :: others)) ∧
      onFiles (saveSession "f" (s.after [.call (.addCategory ⟨1, 0⟩ "p:2")])) files
        = (.ok (), edited) ∧
      LawfulFiles.Holds edited "f" text' ∧
      Json.read? text' = some (.object (("audienceTargeting", extended) :: others)) := by
  let half : Json.Number := .float ⟨false, 2 ^ 52, -53⟩
  let one : Json := .object [("category", .string "p:1")]
  let two : Json := .object [("category", .string "p:2")]
  let stored : Json := .object [("and", .array [.object [("or", .array [one])]])]
  let extended : Json := .object [("and", .array [.object [("or", .array [one, two])]])]
  let members : List (String × Json) :=
    [("audienceTargeting", stored), ("id", .null), ("tag", .null), ("weight", .number half)]
  let settings : EntitySettings :=
    { targeting := some stored, extra := [("tag", .null), ("weight", .number half)] }
  let files : FileTree := { entries := [(["f"], .file (.text (Json.object members).compact))] }
  have hholds : LawfulFiles.Holds files "f" (Json.object members).compact :=
    ⟨["f"], by rfl, by rfl⟩
  have hvalue : Json.read? (Json.object members).compact = some (.object members) := by
    decide +kernel
  have hfractions : ∀ x ∈ (Json.object members).fractions, (Json.Number.float x).ReadsBack := by
    intro x hx
    rw [List.mem_singleton.mp hx]
    unfold Json.Number.ReadsBack
    decide +kernel
  have hread : EntitySettings.read? (Json.object members).compact = some settings := by
    decide +kernel
  have hwritten : (({} : Editor).sessionOn settings).toOption.map (fun s =>
      (s.written, (s.after [.call (.addCategory ⟨1, 0⟩ "p:2")]).written)) = some (stored, extended) := by
    decide +kernel
  obtain ⟨s, hs, hwritten⟩ := Option.map_eq_some_iff.mp hwritten
  obtain ⟨hunedited, hedited⟩ := Prod.mk.inj hwritten
  have hopen : onFiles (({} : Editor).openSession "f") files = (.ok s, files) := by
    rw [onFiles_openSession {} hholds hread, eq_ok_of_toOption hs]
  -- the directory of the file is there, so the file is written
  have hsaves : ∀ s later e, onFiles (saveSession "f" s) files ≠ (.error e, later) := by
    intro s later e hfails
    have htarget : files.target "f" = .ok ["f"] := by decide +kernel
    rw [onFiles, run_saveSession, StateT.run_map, FileTree.run_write, FileTree.write, htarget]
      at hfails
    cases hfails
  have hsaved := fun events =>
    saving_keeps_everything_else {} "f" "f" events hholds hvalue hopen hfractions
  obtain ⟨text, hobject, hcases⟩ := hsaved []
  obtain ⟨unedited, hunsaved, hunholds, -, -⟩ | ⟨_, hfails, -⟩ := hcases files
  · obtain ⟨text', hobject', hcases⟩ := hsaved [.call (.addCategory ⟨1, 0⟩ "p:2")]
    obtain ⟨edited, hsaved, hholds', -, -⟩ | ⟨_, hfails, -⟩ := hcases files
    · rw [hedited] at hobject'
      change Json.read? text = some (.object (EntitySettings.withExpression s.written members))
        at hobject
      rw [hunedited] at hobject
      exact ⟨files, unedited, edited, s, text, text', hholds, hopen, hunsaved, hunholds, hobject,
        hsaved, hholds', hobject'⟩
    · exact absurd hfails (hsaves _ _ _)
  · exact absurd hfails (hsaves _ _ _)

end Targeting
