import Targeting.CommandLine.Program
import Targeting.Proofs.CommandLine.Action
import Targeting.Proofs.Storage

/-!
# What an invocation does to the files

Loading the configuration, the taxonomy and the settings only reads. The one thing that writes is
saving, as the last step of a change that succeeds. So an invocation that fails has changed no file,
and one that succeeds has changed at most the file that it was given, and this one only if its
expression is absent or can be edited.

## Main definitions

* `Program.on` — the result, the report and the files after a program
* `Program.Reads` — a program that changes no file
* `FileContent.IsEditable` — a file with settings whose expression is absent or can be edited
* `Program.Spares` — how the files after an invocation may differ from those before

## Main results

* `Program.on_change_cases` — what a change does to the files
* `Program.touches_only_its_file` — what any invocation does to the files
-/

namespace Targeting

variable {s : Session} {settings : EntitySettings}

/-- A session that was opened either must only be read, or edits the groups that are stored. -/
theorem Editor.sessionOn_cases {editor : Editor} (h : editor.sessionOn settings = .ok s) :
    ∃ t, Tree.ofJson settings.expression = .ok t ∧
      ((t.isEditable editor.configuration.grammar = false ∧ s.phase = .readOnly) ∨
      (t.isEditable editor.configuration.grammar = true ∧ ∃ o : Option Outline,
        settings.expression = (o.map fun o => (Formula.ofGroups o).toJson).getD .null ∧
        s.IsEditing settings editor.configuration.grammar editor.resolve o)) := by
  have hon := load_of_sessionOn h
  rcases Tree.ofJson_cases settings.expression with
    ⟨hnull, hread⟩ | ⟨f, hwritable, hexpression, t, r, hread, hholds⟩ |
    ⟨-, -, position, fault, hfail⟩
  · obtain ⟨s', hopened, hediting⟩ :=
      Session.opened_of_null editor.configuration.grammar editor.resolve hnull
    cases (Session.opened_eq hon).symm.trans hopened
    exact ⟨_, hread, Or.inr ⟨rfl, none, hnull, hediting⟩⟩
  · refine ⟨t, hread, ?_⟩
    cases hedit : t.isEditable editor.configuration.grammar with
    | false =>
      have hphase := (Session.load_eq_loadResult
        (Session.create settings editor.configuration.grammar editor.resolve)).2
      rw [hon] at hphase
      change _ = (Session.loadResult settings editor.configuration.grammar).2 at hphase
      rw [Session.loadResult_eq_readOnly hread hedit] at hphase
      exact Or.inl ⟨rfl, hphase⟩
    | true =>
      obtain ⟨o, rfl, hwithin⟩ :=
        (Tree.isEditable_iff_formula hholds.root hholds.denotes).mp hedit
      obtain ⟨s', hopened, hediting⟩ :=
        Session.opened_of_groups editor.resolve hexpression hwritable hwithin
      cases (Session.opened_eq hon).symm.trans hopened
      exact Or.inr ⟨rfl, some o, hexpression, hediting⟩
  · have hresult := (Session.load_eq_loadResult
      (Session.create settings editor.configuration.grammar editor.resolve)).1
    rw [hon] at hresult
    change _ = (Session.loadResult settings editor.configuration.grammar).1 at hresult
    rw [Session.loadResult, hfail] at hresult
    cases hresult

/-- A file holds settings whose expression is absent or can be edited. -/
def FileContent.IsEditable (grammar : Grammar) (content : FileContent) : Prop :=
  ∃ text settings t, content = .text text ∧ EntitySettings.read? text = some settings ∧
    Tree.ofJson settings.expression = .ok t ∧ t.isEditable grammar = true

namespace CommandLine.Program

variable {σ ε ε' α β : Type} {report : Report} {files files' : σ}

/-- The result of a program, what it has reported by then, and the files afterwards. -/
def on (x : ExceptT ε (StateT Report (StateM σ)) α) (report : Report) (files : σ) :
    (Except ε α × Report) × σ :=
  ((ExceptT.run x).run report).run files

@[simp] theorem on_pure (a : α) (report : Report) (files : σ) :
    on (pure a : ExceptT ε _ α) report files = ((.ok a, report), files) := rfl

@[simp] theorem on_throw (e : ε) (report : Report) (files : σ) :
    on (throw e : ExceptT ε _ α) report files = ((.error e, report), files) := rfl

theorem on_bind (x : ExceptT ε (StateT Report (StateM σ)) α)
    (f : α → ExceptT ε (StateT Report (StateM σ)) β) (report : Report) (files : σ) :
    on (x >>= f) report files = match on x report files with
      | ((.ok a, report'), files') => on (f a) report' files'
      | ((.error e, report'), files') => ((.error e, report'), files') := by
  rcases hx : on x report files with ⟨⟨_ | a, report'⟩, files'⟩ <;>
  · change (((ExceptT.run (x >>= f)).run report).run files) = _
    rw [ExceptT.run_bind, StateT.run_bind, StateT.run_bind,
      show ((ExceptT.run x).run report).run files = _ from hx]
    rfl

theorem on_adapt (g : ε → ε') (x : ExceptT ε (StateT Report (StateM σ)) α) (report : Report)
    (files : σ) : on (ExceptT.adapt g x) report files
      = (((on x report files).1.1.mapError g, (on x report files).1.2), (on x report files).2) :=
  rfl

/-! ### Programs that only read -/

/-- Whatever comes of a program, the files are as they were. -/
def Reads (x : ExceptT ε (StateT Report (StateM σ)) α) : Prop :=
  ∀ report files, (on x report files).2 = files

theorem reads_pure (a : α) : Reads (pure a : ExceptT ε (StateT Report (StateM σ)) α) :=
  fun _ _ => rfl

theorem reads_throw (e : ε) : Reads (throw e : ExceptT ε (StateT Report (StateM σ)) α) :=
  fun _ _ => rfl

theorem Reads.bind {x : ExceptT ε (StateT Report (StateM σ)) α}
    {f : α → ExceptT ε (StateT Report (StateM σ)) β} (hx : Reads x) (hf : ∀ a, Reads (f a)) :
    Reads (x >>= f) := by
  intro report files
  have hfiles := hx report files
  rw [on_bind]
  rcases hon : on x report files with ⟨⟨_ | a, report'⟩, files'⟩ <;> rw [hon] at hfiles
  · exact hfiles
  · exact (hf a report' files').trans hfiles

theorem Reads.adapt (g : ε → ε') {x : ExceptT ε (StateT Report (StateM σ)) α} (hx : Reads x) :
    Reads (ExceptT.adapt g x) := hx

theorem reads_mapM {f : α → ExceptT ε (StateT Report (StateM σ)) β} (hf : ∀ a, Reads (f a))
    (list : List α) : Reads (list.mapM f) := by
  induction list with
  | nil => exact reads_pure []
  | cons a list ih =>
    rw [List.mapM_cons]
    exact (hf a).bind fun b => ih.bind fun bs => reads_pure (b :: bs)

theorem reads_say (line : Line) : Reads (say line : Program (StateM σ) Unit) := fun _ _ => rfl

/-! ### Opening and saving -/

section

variable [FileAccess (StateM σ)]

/-- Opening a session does not see the report. -/
theorem on_openSession (editor : Editor) (path : String) (report : Report) (files : σ) :
    on (editor.openSession path) report files
      = (((onFiles (editor.openSession path) files).1, report),
        (onFiles (editor.openSession path) files).2) := by
  rw [on, onFiles, Editor.run_openSession, Editor.run_openSession]
  rfl

/-- Saving a session does not see the report. -/
theorem on_saveSession (path : String) (s : Session) (report : Report) (files : σ) :
    on (saveSession path s) report files
      = (((onFiles (saveSession path s) files).1, report),
        (onFiles (saveSession path s) files).2) := by
  rw [on, onFiles, run_saveSession, run_saveSession]
  rfl

/-- The last part of a change: what is to be saved is saved, and the line that reports it stands
before or after. -/
def conclude (editor : Editor) (file : String) (c : Change) (saved : Bool) (s : Session) :
    Program (StateM σ) Unit := do
  let line := c.report editor.configuration file s saved
  if c.isReportedFirst then say line
  if saved then stored (saveSession file s)
  if !c.isReportedFirst then say line

theorem on_stored_saveSession (file : String) (s : Session) (report : Report) (files : σ) :
    on (stored (saveSession file s)) report files
      = (((onFiles (saveSession file s) files).1.mapError CommandError.storage, report),
        (onFiles (saveSession file s) files).2) := by
  rw [stored, on_adapt, on_saveSession]

/-- What is to be saved is saved in the end, whatever is reported before or after. -/
theorem on_conclude_true (editor : Editor) (file : String) (c : Change) (s : Session)
    (report : Report) (files : σ) :
    (on (conclude editor file c true s) report files).1.1
        = (onFiles (saveSession file s) files).1.mapError CommandError.storage ∧
      (on (conclude editor file c true s) report files).2
        = (onFiles (saveSession file s) files).2 := by
  unfold conclude
  cases c.isReportedFirst with
  | false =>
    change (on (stored (saveSession file s) >>= fun _ => say _) report files).1.1 = _ ∧
      (on (stored (saveSession file s) >>= fun _ => say _) report files).2 = _
    rw [on_bind, on_stored_saveSession]
    rcases onFiles (saveSession file s) files with ⟨_ | _, later⟩ <;> exact ⟨rfl, rfl⟩
  | true =>
    change (on (stored (saveSession file s) >>= fun _ => pure ()) (report ++ [_]) files).1.1 = _ ∧
      (on (stored (saveSession file s) >>= fun _ => pure ()) (report ++ [_]) files).2 = _
    rw [on_bind, on_stored_saveSession]
    rcases onFiles (saveSession file s) files with ⟨_ | _, later⟩ <;> exact ⟨rfl, rfl⟩

/-- If there is nothing to be saved, nothing fails and no file changes. -/
theorem on_conclude_false (editor : Editor) (file : String) (c : Change) (s : Session)
    (report : Report) (files : σ) :
    (on (conclude editor file c false s) report files).1.1 = .ok () ∧
      (on (conclude editor file c false s) report files).2 = files := by
  unfold conclude
  cases c.isReportedFirst <;> exact ⟨rfl, rfl⟩

/-- What is started has the given configuration. -/
theorem configuration_of_start {c : Configuration} {editor : Editor}
    (h : (on (Editor.start c : ExceptT _ (StateT Report (StateM σ)) _) report files).1.1
      = .ok editor) : editor.configuration = c := by
  unfold Editor.start at h
  split at h
  · rw [on_bind] at h
    rcases hload : on (loadTaxonomy _) report files with ⟨⟨_ | taxonomy, _⟩, _⟩
    · rw [hload] at h
      cases h
    · rw [hload] at h
      cases h
      rfl
  · cases h
    rfl

end

/-! ### Reading -/

variable [FileAccess (StateM σ)] [LawfulFiles σ]

theorem reads_read (path : String) :
    Reads (FileAccess.read path : ExceptT ε (StateT Report (StateM σ)) _) := by
  intro report files
  obtain ⟨result, hon, -⟩ := LawfulFiles.read_on files path
  change ((FileAccess.read path : StateM σ _).run files).2 = files
  rw [hon]

theorem reads_isPresent (path : String) :
    Reads (FileAccess.isPresent path : ExceptT ε (StateT Report (StateM σ)) _) := by
  intro report files
  obtain ⟨answer, hon⟩ := LawfulFiles.isPresent_on files path
  change ((FileAccess.isPresent path : StateM σ _).run files).2 = files
  rw [hon]

theorem reads_loadLayer (path : String) :
    Reads (Configuration.loadLayer path : ExceptT _ (StateT Report (StateM σ)) _) := by
  refine (reads_isPresent path).bind fun isPresent => ?_
  split
  · exact reads_pure _
  · refine (reads_read path).bind fun result => ?_
    split
    · exact reads_throw _
    · split
      · exact reads_throw _
      · exact reads_pure _

theorem reads_load (env : Environment) (directory : Option String) :
    Reads (Configuration.load env directory : ExceptT _ (StateT Report (StateM σ)) _) :=
  (reads_mapM reads_loadLayer _).bind fun _ => reads_pure _

theorem reads_loadTaxonomy (path : String) :
    Reads (loadTaxonomy path : ExceptT _ (StateT Report (StateM σ)) _) := by
  refine (reads_read path).bind fun result => ?_
  split
  · exact reads_throw _
  · split
    · exact reads_throw _
    · exact reads_pure _

theorem reads_start (c : Configuration) :
    Reads (Editor.start c : ExceptT _ (StateT Report (StateM σ)) _) := by
  unfold Editor.start
  split
  · exact (reads_loadTaxonomy _).bind fun _ => reads_pure _
  · exact reads_pure _

theorem reads_loadSettings (path : String) :
    Reads (loadSettings path : ExceptT _ (StateT Report (StateM σ)) _) := by
  refine (reads_read path).bind fun result => ?_
  split
  · exact reads_throw _
  · split
    · exact reads_throw _
    · exact reads_pure _

theorem reads_openSession (editor : Editor) (path : String) :
    Reads (editor.openSession path : ExceptT _ (StateT Report (StateM σ)) _) := by
  refine (reads_loadSettings path).bind fun settings => ?_
  dsimp only
  split
  · exact reads_pure _
  · exact reads_throw _

theorem reads_view (editor : Editor) (file : String) (kind : View) :
    Reads (view editor file kind : Program (StateM σ) Unit) :=
  ((reads_openSession editor file).adapt _).bind fun _ _ _ => rfl

theorem reads_fileLine (path : String) : Reads (fileLine path : Program (StateM σ) String) :=
  (reads_isPresent path).bind fun _ => reads_pure _

theorem reads_showConfiguration (env : Environment) (directory : String) (c : Configuration)
    (topic : ConfigurationTopic) :
    Reads (showConfiguration env directory c topic : Program (StateM σ) Unit) := by
  cases topic with
  | values =>
    rw [showConfiguration]
    split
    · exact reads_say _
    · exact reads_throw _
  | template => exact reads_say _
  | files =>
    refine Reads.bind (reads_mapM (fun path => reads_fileLine path) _) fun lines => ?_
    exact reads_say _

/-! ### Changes -/

/-- The files after a change that succeeds. -/
def HasChanged (editor : Editor) (file : String) (change : Change) (files files' : σ) : Prop :=
  ∃ text settings s saved s', LawfulFiles.Holds files file text ∧
    EntitySettings.read? text = some settings ∧ editor.sessionOn settings = .ok s ∧
    (change.act editor.configuration).on s = (.ok saved, s') ∧
    if saved then LawfulFiles.Holds files' file s'.toSettings.write ∧
      LawfulFiles.SameContentsBut file files files'
    else files' = files

/-- A change fails and no file has changed, or it succeeds. -/
theorem on_change_cases (editor : Editor) (file : String) (c : Change) (report : Report)
    (files : σ) :
    (∃ e, (on (change editor file c) report files).1.1 = .error e ∧
      LawfulFiles.SameContents files (on (change editor file c) report files).2) ∨
    ((on (change editor file c) report files).1.1 = .ok () ∧
      HasChanged editor file c files (on (change editor file c) report files).2) := by
  rw [change, on_bind, stored, on_adapt, on_openSession]
  have hfiles := reads_openSession editor file report files
  rw [on_openSession] at hfiles
  rcases hopen : onFiles (editor.openSession file) files with ⟨e | s, files'⟩
  · rw [hopen] at hfiles
    cases hfiles
    exact Or.inl ⟨_, rfl, fun _ => rfl⟩
  · obtain ⟨rfl, text, settings, hholds, hread, hon⟩ := holds_of_openSession hopen
    dsimp only [Except.mapError]
    -- the session has been loaded, so all that can touch a file now is saving
    rcases hact : (c.act editor.configuration).run.run s with ⟨e | saved, s'⟩
    · exact Or.inl ⟨e, rfl, fun _ => rfl⟩
    · change (∃ e, (on (conclude editor file c saved s') report files').1.1 = .error e ∧
          LawfulFiles.SameContents files' (on (conclude editor file c saved s') report files').2) ∨
        ((on (conclude editor file c saved s') report files').1.1 = .ok () ∧
          HasChanged editor file c files' (on (conclude editor file c saved s') report files').2)
      cases saved with
      | false =>
        obtain ⟨hresult, hsame⟩ := on_conclude_false editor file c s' report files'
        exact Or.inr ⟨hresult, text, settings, s, false, s', hholds, hread, hon, hact, hsame⟩
      | true =>
        obtain ⟨hresult, hlater⟩ := on_conclude_true editor file c s' report files'
        rw [hresult, hlater]
        obtain ⟨later, hsave, hsaved⟩ | ⟨later, hsave, hsame⟩ :=
          onFiles_saveSession_cases file s' files'
        · rw [hsave]
          exact Or.inr ⟨rfl, text, settings, s, true, s', hholds, hread, hon, hact, hsaved⟩
        · rw [hsave]
          exact Or.inl ⟨_, rfl, hsame⟩

/-! ### Invocations -/

/-- The configuration in force for an invocation. Without any directory no invocation comes to load
it. -/
def configurationFor (around : Surroundings) (invocation : Invocation) (files : σ) :
    Except ConfigurationError Configuration :=
  (on (Configuration.load around.environment (invocation.directory.or around.directory)) []
    files).1.1

/-- An invocation that is not for a change only reads. -/
theorem reads_ofInvocation (around : Surroundings) {invocation : Invocation}
    (h : ∀ file kind, invocation.command ≠ some (.change file kind)) :
    Reads (ofInvocation around invocation : Program (StateM σ) Unit) := by
  unfold ofInvocation
  cases invocation.directory.or around.directory with
  | none => exact reads_throw _
  | some directory =>
    dsimp only
    split
    · exact reads_throw _
    · exact reads_say _
    · next command _ hcommand =>
      refine ((reads_load _ _).adapt _).bind fun c => ?_
      cases command with
      | configuration topic => exact reads_showConfiguration _ _ _ _
      | view file kind =>
        exact ((reads_start c).adapt _).bind fun editor => reads_view editor file kind
      | change file kind => exact absurd hcommand (h file kind)
      | completion shell => exact reads_say _

/-- An invocation for a change fails and no file has changed, or the change succeeds under the
configuration in force. -/
theorem on_ofInvocation_change (around : Surroundings) {invocation : Invocation} {file : String}
    {kind : Change} (hcommand : invocation.command = some (.change file kind)) (files : σ) :
    (∃ e, (on (ofInvocation around invocation) [] files).1.1 = .error e ∧
      LawfulFiles.SameContents files (on (ofInvocation around invocation) [] files).2) ∨
    ((on (ofInvocation around invocation) [] files).1.1 = .ok () ∧
      ∃ editor : Editor, configurationFor around invocation files = .ok editor.configuration ∧
        HasChanged editor file kind files (on (ofInvocation around invocation) [] files).2) := by
  unfold ofInvocation configurationFor
  rw [hcommand]
  cases invocation.directory.or around.directory with
  | none => exact Or.inl ⟨_, rfl, fun _ => rfl⟩
  | some directory =>
    dsimp only
    rw [on_bind, configured, on_adapt]
    have hloaded := reads_load around.environment (some directory) [] files
    rcases hload : on (Configuration.load around.environment (some directory)) [] files
      with ⟨⟨e | c, report⟩, files'⟩ <;> rw [hload] at hloaded <;> cases hloaded
    · exact Or.inl ⟨_, rfl, fun _ => rfl⟩
    · dsimp only [Except.mapError]
      rw [on_bind, stored, on_adapt]
      have hstarted := reads_start c report files'
      rcases hstart : on (Editor.start c) report files' with ⟨⟨e | editor, report'⟩, files''⟩ <;>
        rw [hstart] at hstarted <;> cases hstarted
      · exact Or.inl ⟨_, rfl, fun _ => rfl⟩
      · obtain hfails | ⟨hok, hchanged⟩ := on_change_cases editor file kind report' files''
        · exact Or.inl hfails
        · refine Or.inr ⟨hok, editor, ?_, hchanged⟩
          rw [configuration_of_start (congrArg (·.1.1) hstart)]

/-- How the files after an invocation may differ from those before, given its result. -/
structure Spares (around : Surroundings) (invocation : Invocation) (files files' : σ)
    (result : Except CommandError Unit) : Prop where
  /-- A failure changes no file. -/
  failed : ∀ e, result = .error e → LawfulFiles.SameContents files files'
  /-- Only a command for a change changes files. -/
  viewed : (∀ file kind, invocation.command ≠ some (.change file kind)) →
    LawfulFiles.SameContents files files'
  /-- A change does not touch other files than the one that it is for, and creates none. -/
  others : ∀ file kind, invocation.command = some (.change file kind) →
    ∀ place, LawfulFiles.place? files file ≠ some place →
      LawfulFiles.content? files' place = LawfulFiles.content? files place
  /-- Where there is no file that can be edited under the configuration in force, nothing changes. -/
  uneditable : ∀ c, configurationFor around invocation files = .ok c → ∀ place,
    (∀ content, LawfulFiles.content? files place = some content → ¬ content.IsEditable c.grammar) →
      LawfulFiles.content? files' place = LawfulFiles.content? files place

theorem Spares.of_sameContents {around : Surroundings} {invocation : Invocation}
    {result : Except CommandError Unit} (h : LawfulFiles.SameContents files files') :
    Spares around invocation files files' result where
  failed _ _ := h
  viewed _ := h
  others _ _ _ place _ := h place
  uneditable _ _ place _ := h place

/-- A change that succeeds has changed no file, or a single one, which could be edited. -/
theorem HasChanged.sameContents_or {editor : Editor} {file : String} {kind : Change}
    (h : HasChanged editor file kind files files') :
    LawfulFiles.SameContents files files' ∨ ∃ place content,
      LawfulFiles.place? files file = some place ∧
      LawfulFiles.content? files place = some content ∧
      content.IsEditable editor.configuration.grammar ∧
      ∀ other, other ≠ place →
        LawfulFiles.content? files' other = LawfulFiles.content? files other := by
  obtain ⟨text, settings, s, saved, s', ⟨place, hplace, hcontent⟩, hread, hopen, hact, hfiles⟩ := h
  cases saved with
  | false =>
    cases hfiles
    exact Or.inl fun _ => rfl
  | true =>
    -- the file that is written is the one that was read
    obtain ⟨-, place', hplace', hothers⟩ := hfiles
    cases hplace.symm.trans hplace'
    obtain ⟨t, hexpression, ⟨-, hphase⟩ | ⟨hedit, -⟩⟩ := Editor.sessionOn_cases hopen
    · -- what must only be read is not saved
      cases (Change.on_act_readOnly hphase hact).2.1
    · exact Or.inr ⟨place, _, hplace, hcontent, ⟨text, settings, t, rfl, hread, hexpression, hedit⟩,
        hothers⟩

/-- An invocation that fails changes no file, and neither does one that is not for a change. A change
that succeeds changes at most the file that it is for. And no invocation changes a file that holds
no settings, an expression that cannot be read, or one that cannot be edited. -/
theorem touches_only_its_file (around : Surroundings) (invocation : Invocation) (files : σ) :
    Spares around invocation files (on (ofInvocation around invocation) [] files).2
      (on (ofInvocation around invocation) [] files).1.1 := by
  by_cases hview : ∀ file kind, invocation.command ≠ some (.change file kind)
  · apply Spares.of_sameContents
    rw [reads_ofInvocation around hview [] files]
    exact fun _ => rfl
  · push Not at hview
    obtain ⟨file, kind, hcommand⟩ := hview
    obtain ⟨e, -, hsame⟩ | ⟨hok, editor, hconfiguration, hchanged⟩ :=
      on_ofInvocation_change around hcommand files
    · exact .of_sameContents hsame
    · obtain hsame | ⟨place, content, hplace, hcontent, hedit, hothers⟩ :=
        hchanged.sameContents_or
      · exact .of_sameContents hsame
      · refine ⟨?_, ?_, ?_, ?_⟩
        · intro e hfails
          rw [hok] at hfails
          cases hfails
        · intro hview
          exact absurd hcommand (hview file kind)
        · intro file' kind' hcommand' other hother
          cases hcommand.symm.trans hcommand'
          apply hothers
          rintro rfl
          exact hother hplace
        · intro c hc other hother
          cases hconfiguration.symm.trans hc
          apply hothers
          rintro rfl
          exact hother content hcontent hedit

/-- Adding a category to a file without settings so far leaves a file of bytes beside it alone, byte
for byte. -/
theorem touches_only_its_file_adding_category :
    ∃ (around : Surroundings) (invocation : Invocation) (files files' : FileTree),
      (on (ofInvocation around invocation) [] files).2 = files' ∧
      files.content? ["g"] = some (.bytes #[0x41, 0xC3, 0x28]) ∧
      files'.content? ["g"] = some (.bytes #[0x41, 0xC3, 0x28]) ∧
      files.content? ["f"] = some (.text "\x7b\x7d") ∧
      files'.content? ["f"] ≠ files.content? ["f"] := by
  let around : Surroundings := { environment := {}, directory := "/" }
  let invocation : Invocation :=
    { directory := none, command := some (.change "f" (.addCategory "1" (.inclusion 1))) }
  let files : FileTree :=
    { entries := [(["f"], .file (.text "\x7b\x7d")),
        (["g"], .file (.bytes #[0x41, 0xC3, 0x28]))] }
  have hplace : (files.locate "f").toOption ≠ some ["g"] := by decide +kernel
  have hother := (touches_only_its_file around invocation files).others "f" _ rfl ["g"] hplace
  have hchanged : (on (ofInvocation around invocation) [] files).2.content? ["f"]
      ≠ files.content? ["f"] := by decide +kernel
  exact ⟨around, invocation, files, _, rfl, rfl, hother, rfl, hchanged⟩

end CommandLine.Program

end Targeting
