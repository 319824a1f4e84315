import Targeting.Configuration.Load
import Targeting.Proofs.Configuration.Variables
import Targeting.Proofs.Files.Lawful

/-!
# Where the settings in force come from

Loading the configuration reads two files at most and changes none. Each setting is then what the
highest layer says that specifies it: the variables, the local file, the file of the user, the
defaults. The variables with the documented names are not among the variables of the highest layer.

## Main definitions

* `Configuration.IsLayerOf` — the layer of a file that may be missing
* `Configuration.promised` — what users are told of a setting

## Main results

* `Configuration.run_load` — loading reads the layers of the two files
* `Configuration.takes_highest_layer` — each setting alone comes from the highest layer
-/

namespace Targeting

/-- Two steps on a state that succeed do so one after the other. -/
theorem exists_of_run_bind_eq_ok {σ ε α β : Type} {x : ExceptT ε (StateM σ) α}
    {f : α → ExceptT ε (StateM σ) β} {b : β} {files files' : σ}
    (h : (ExceptT.run (x >>= f)).run files = (.ok b, files')) :
    ∃ a between, (ExceptT.run x).run files = (.ok a, between) ∧
      (ExceptT.run (f a)).run between = (.ok b, files') := by
  rw [ExceptT.run_bind, StateT.run_bind] at h
  rcases hx : (ExceptT.run x).run files with ⟨_ | a, between⟩
  · rw [hx] at h
    cases h
  · rw [hx] at h
    exact ⟨a, between, rfl, h⟩

/-- A value that is left of a result with a state is the result. -/
theorem exists_eq_ok_of_toOption {σ ε α : Type} {x : Except ε α × σ} {a : α}
    (h : x.1.toOption = some a) : ∃ files, x = (.ok a, files) :=
  ⟨x.2, Prod.ext (eq_ok_of_toOption h) rfl⟩

namespace Configuration

variable {σ : Type} [FileAccess (StateM σ)] [LawfulFiles σ] {files files' : σ} {path : String}
  {l : Layer} {env : Environment} {directory : Option String} {c : Configuration}

/-- The layer of a file. A file that is missing or has no path specifies nothing; another one
specifies what the document says that it holds. -/
inductive IsLayerOf (files : σ) : Option String → Layer → Prop
  | nowhere : IsLayerOf files none {}
  | missing {path : String}
      (h : (FileAccess.isPresent path : StateM σ Bool).run files = (false, files)) :
      IsLayerOf files (some path) {}
  | stored {path text : String} {members : Toml.Members} {l : Layer}
      (hholds : LawfulFiles.Holds files path text) (hread : Toml.read? text = some members)
      (hspecifies : ∀ s : Setting, s.inDocument members = (s.ofLayer l).map SettingValue.toToml) :
      IsLayerOf files (some path) l

theorem run_loadLayer
    (h : (ExceptT.run (loadLayer path : ExceptT _ (StateM σ) _)).run files = (.ok l, files')) :
    files' = files ∧ IsLayerOf files (some path) l := by
  obtain ⟨answer, hanswer⟩ := LawfulFiles.isPresent_on files path
  obtain ⟨result, hresult, htext⟩ := LawfulFiles.read_on files path
  obtain ⟨present, between, hpresent, hrest⟩ := exists_of_run_bind_eq_ok h
  cases (congrArg (Prod.map Except.ok id) hanswer).symm.trans hpresent
  cases answer with
  | false =>
    cases hrest
    exact ⟨rfl, .missing hanswer⟩
  | true =>
    rw [Bool.not_true, if_neg Bool.false_ne_true] at hrest
    obtain ⟨found, between, hfound, hend⟩ := exists_of_run_bind_eq_ok hrest
    cases (congrArg (Prod.map Except.ok id) hresult).symm.trans hfound
    cases result with
    | error e => cases hend
    | ok text =>
      dsimp only at hend
      split at hend
      · cases hend
      · next hlayer =>
        cases hend
        obtain ⟨members, hmembers, hlayer⟩ := Option.bind_eq_some_iff.mp hlayer
        exact ⟨rfl, .stored ((htext text).mp rfl) hmembers (Setting.inDocument_eq hlayer)⟩

/-- A file without a path counts for as much as an empty layer. -/
theorem run_mapM_loadLayer {path? : Option String} {layers : List Layer}
    (h : (ExceptT.run (path?.toList.mapM loadLayer : ExceptT _ (StateM σ) _)).run files
      = (.ok layers, files')) :
    files' = files ∧ ∃ l, IsLayerOf files path? l ∧
      ∀ s : Setting, layers.reverse.findSome? s.ofLayer = s.ofLayer l := by
  cases path? with
  | none =>
    cases h
    exact ⟨rfl, {}, .nowhere, fun s => s.ofLayer_empty.symm⟩
  | some path =>
    rw [Option.toList_some, List.mapM_cons] at h
    obtain ⟨l, between, hl, hend⟩ := exists_of_run_bind_eq_ok h
    obtain ⟨rfl, hlayer⟩ := run_loadLayer hl
    cases hend
    exact ⟨rfl, l, hlayer, fun s => List.findSome?_singleton⟩

/-- Loading reads the layers of the two files and changes nothing. -/
theorem run_load (h : (ExceptT.run (load env directory : ExceptT _ (StateM σ) _)).run files
      = (.ok c, files')) :
    files' = files ∧ ∃ here user, IsLayerOf files (directory.map localFile) here ∧
      IsLayerOf files (userFile? env) user ∧ ∀ s : Setting,
        s.inForce c = ([Layer.ofEnvironment env, here, user, Layer.defaults].findSome?
          s.ofLayer).map (s.settled env) := by
  obtain ⟨layers, between, hlayers, hend⟩ := exists_of_run_bind_eq_ok h
  rw [List.mapM_append] at hlayers
  obtain ⟨ofUser, between, huserRun, hrest⟩ := exists_of_run_bind_eq_ok hlayers
  obtain ⟨rfl, user, huser, hofUser⟩ := run_mapM_loadLayer huserRun
  obtain ⟨ofDirectory, between, hhereRun, hboth⟩ := exists_of_run_bind_eq_ok hrest
  obtain ⟨rfl, here, hhere, hofDirectory⟩ := run_mapM_loadLayer hhereRun
  cases hboth
  cases hend
  refine ⟨rfl, here, user, hhere, huser, fun s => ?_⟩
  rw [Setting.inForce_layered, List.reverse_append]
  simp only [List.cons_append, List.findSome?_cons, List.findSome?_append, hofDirectory, hofUser]
  cases s.ofLayer (Layer.ofEnvironment env) <;> cases s.ofLayer here <;>
    cases s.ofLayer user <;> rfl

/-- What users are told of a setting: the variable with the documented name decides, then the local
file, the file of the user and the defaults. -/
def promised (env : Environment) (here user : Layer) (s : Setting) : Option SettingValue :=
  ((s.documented? env).or ([here, user, Layer.defaults].findSome? s.ofLayer)).map (s.settled env)

/-- Each setting alone comes from the highest layer that specifies it: from the variables, where the
one decides that `Environment.Decides` picks, or from the local file, the file of the user or the
defaults. That is the last variable for the setting, unless another one is in the way. The text of a
variable counts for what it stands for by itself unless it is written anew. The variables with the
documented names have no part in this. So if no other variable is for a setting, what users are told
of it is true if and only if the documented variable is not set, has no value for it, or repeats what
holds anyway. -/
theorem takes_highest_layer
    (h : (ExceptT.run (load env directory : ExceptT _ (StateM σ) _)).run files
      = (.ok c, files')) :
    files' = files ∧ ∃ here user, IsLayerOf files (directory.map localFile) here ∧
      IsLayerOf files (userFile? env) user ∧
      Layer.ofEnvironment env.undocumented = Layer.ofEnvironment env ∧
      ∀ s : Setting,
        s.inForce c = ([Layer.ofEnvironment env, here, user, Layer.defaults].findSome?
          s.ofLayer).map (s.settled env) ∧
        (∀ v, s.ofLayer (Layer.ofEnvironment env) = some v ↔
          ∃ name text, env.Decides s name text ∧ s.read text = some v) ∧
        (env.IsUnambiguous s → ∀ name text, env.Decides s name text ↔ env.IsLast s name text) ∧
        (∀ text v, s.literal? text = some v →
          (s.read text = some v ↔ s.IsReadLiterally text)) ∧
        ((∀ b ∈ env.bindings, Text.lower b.1 ∉ s.names) →
          (s.inForce c = promised env here user s ↔
            ∀ v, s.documented? env = some v → some (s.settled env v)
              = ([here, user, Layer.defaults].findSome? s.ofLayer).map (s.settled env))) := by
  obtain ⟨hfiles, here, user, hhere, huser, hforce⟩ := run_load h
  refine ⟨hfiles, here, user, hhere, huser, Layer.ofEnvironment_undocumented env, fun s =>
    ⟨hforce s, fun v => Setting.ofLayer_ofEnvironment_iff,
      fun h name text => Environment.decides_iff h,
      fun text v => Setting.read_eq_iff_of_literal?, fun hnames => ?_⟩⟩
  rw [hforce s, List.findSome?_cons, Setting.ofLayer_ofEnvironment_eq_none hnames, promised]
  cases s.documented? env with
  | none => simp
  | some v =>
    rw [Option.some_or, Option.map_some]
    constructor
    · rintro hsame v ⟨⟩
      exact hsame.symm
    · intro hsame
      exact (hsame v rfl).symm

/-- The variable with the documented name does not count against the file of the user, which is found
through the account. Of two variables for a bound the last one counts, also if its name is the smaller
one, and a bound that no layer mentions has its default. -/
theorem takes_highest_layer_documented_ignored :
    ∃ (env : Environment) (files : FileTree) (c : Configuration) (here user : Layer),
      (ExceptT.run (load env (some ".") : ExceptT _ (StateM FileTree) _)).run files
        = (.ok c, files) ∧
      env.value? "HOME" = none ∧
      IsLayerOf files (some "/u/.config/audtarget/audtarget.toml") user ∧
      Setting.provider.documented? env = some (.text "lotame") ∧
      Setting.provider.inForce c = some (.text "krux") ∧
      Setting.provider.inForce c ≠ promised env here user .provider ∧
      env.Decides (.bound .inclusion) "AUDTARGET__GRAMMAR__MAX_INCLUSION_GROUPS" "5" ∧
      (Setting.bound .inclusion).inForce c = some (.bound 5) ∧
      (Setting.bound .exclusion).inForce c = promised env here user (.bound .exclusion) := by
  let env : Environment :=
    { bindings := [("AUDTARGET_PROVIDER", "lotame"),
        ("audtarget__grammar__max_inclusion_groups", "9"),
        ("AUDTARGET__GRAMMAR__MAX_INCLUSION_GROUPS", "5")]
      accountHome := some "/u" }
  let files : FileTree :=
    { entries := [(["u"], .directory), (["u", ".config"], .directory),
        (["u", ".config", "audtarget"], .directory),
        (["u", ".config", "audtarget", "audtarget.toml"],
          .file (.text "provider = \"krux\"\n"))] }
  let c : Configuration := { provider := "krux", grammar := { maxInclusionGroups := 5 } }
  have hc : ((ExceptT.run (load env (some ".") : ExceptT _ (StateM FileTree) _)).run files).1.toOption
      = some c := by
    decide +kernel
  obtain ⟨later, hload⟩ := exists_eq_ok_of_toOption hc
  obtain ⟨rfl, here, user, -, huser, -, hsettings⟩ := takes_highest_layer hload
  have hfile : userFile? env = some "/u/.config/audtarget/audtarget.toml" := by decide +kernel
  rw [hfile] at huser
  have hdocumented : Setting.provider.documented? env = some (.text "lotame") := by decide +kernel
  have hunambiguous : env.IsUnambiguous (.bound .inclusion) := by
    unfold Environment.IsUnambiguous
    decide +kernel
  refine ⟨env, files, c, here, user, hload, rfl, huser, hdocumented, rfl, fun heq => ?_, ?_, rfl, ?_⟩
  · rw [promised, hdocumented, Option.some_or, Option.map_some] at heq
    exact absurd heq (by decide)
  · obtain ⟨-, -, hdecides, -⟩ := hsettings (.bound .inclusion)
    exact (hdecides hunambiguous _ _).mpr
      ⟨by decide +kernel, env.bindings.take 2, [], rfl, nofun⟩
  · obtain ⟨-, -, -, -, hpromised⟩ := hsettings (.bound .exclusion)
    refine (hpromised (by decide +kernel)).mpr fun v hv => ?_
    have hnone : (Setting.bound .exclusion).documented? env = none := by decide +kernel
    cases hnone.symm.trans hv

end Configuration

end Targeting
