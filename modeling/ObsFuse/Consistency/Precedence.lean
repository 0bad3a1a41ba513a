import ObsFuse.Fs.Settings

/-! # The order of the sources of the settings

An argument is to take precedence over an environment variable, that over the configuration
file, and that over the default. The environment is merged twice, by the argument parser and
at the end, and some settings of the file are always replaced. Here is when the settings are
nevertheless those of the order. -/

namespace ObsFuse

/-- What the configuration file says: the one named, else the one at the default location, if
it is there and loads. -/
def ConfigFiles.inEffect (files : ConfigFiles) (args : MountArgs) : FileSettings :=
  match args.config with
  | some path => (files.load path).toOption.getD .empty
  | none =>
    if files.present files.defaultConfigPath then
      (files.load files.defaultConfigPath).toOption.getD .empty
    else .empty

/-- The settings in the documented order of the sources. -/
def precedence (args : MountArgs) (env : Environment) (file : FileSettings) : ObsSettings :=
  let region := ((args.region.or env.region).or file.region).getD defaultRegion
  { bucket := args.bucket
    endpoint := ((args.endpoint.or env.endpoint).or file.endpoint).getD (derivedEndpoint region)
    region := region
    accessKey := (args.accessKey.or env.accessKey).or file.accessKey
    secretKey := (args.secretKey.or env.secretKey).or file.secretKey
    obsPrefix := args.obsPrefix.or file.obsPrefix }

/-- An environment variable that is set has the value given as the argument. -/
def Concurs (given env : Option Str) : Prop := ∀ e ∈ env, ∀ a ∈ given, a = e

instance (given env : Option Str) : Decidable (Concurs given env) :=
  inferInstanceAs (Decidable (∀ e ∈ _, ∀ a ∈ _, _))

/-- The sources leave no doubt: variables do not contradict arguments, and where only the file
could set the region, the endpoint or the prefix, it says what it is without the file. -/
structure Undisputed (args : MountArgs) (env : Environment) (file : FileSettings) : Prop where
  bucket : Concurs (some args.bucket) env.bucket
  endpoint : Concurs args.endpoint env.endpoint
  region : Concurs args.region env.region
  accessKey : Concurs args.accessKey env.accessKey
  secretKey : Concurs args.secretKey env.secretKey
  fileRegion : args.region.or env.region = none → ∀ r ∈ file.region, r = defaultRegion
  fileEndpoint : args.endpoint.or env.endpoint = none → ∀ e ∈ file.endpoint,
    e = derivedEndpoint ((args.region.or env.region).getD defaultRegion)
  filePrefix : args.obsPrefix = none → file.obsPrefix = none

theorem or_eq_iff_concurs (given env file : Option Str) :
    env.or ((given.or env).or file) = (given.or env).or file ↔ Concurs given env := by
  cases given with
  | none =>
    refine iff_of_true ?_ fun _ _ _ h => nomatch h
    cases env with
    | none => rfl
    | some e => rfl
  | some a =>
    cases env with
    | none => exact iff_of_true rfl nofun
    | some e =>
      show some e = some a ↔ _
      rw [Option.some.injEq]
      refine ⟨?_, ?_⟩
      · intro h b hb c hc
        cases hb
        cases hc
        exact h.symm
      · intro h
        exact (h e rfl a rfl).symm

/-- A setting with a default that the environment sets last. -/
theorem getD_eq_iff_concurs (given env file : Option Str) (default default' : Str) :
    env.getD ((given.or env).getD default) = ((given.or env).or file).getD default' ↔
      Concurs given env ∧ (given.or env = none → file.getD default' = default) := by
  cases given with
  | none =>
    cases env with
    | none =>
      show default = file.getD default' ↔ _
      exact ⟨fun h => ⟨nofun, fun _ => h.symm⟩, fun h => (h.2 rfl).symm⟩
    | some e => exact iff_of_true rfl ⟨fun _ _ _ h => (nomatch h), nofun⟩
  | some a =>
    cases env with
    | none => exact iff_of_true rfl ⟨nofun, nofun⟩
    | some e =>
      show e = a ↔ _
      refine ⟨?_, ?_⟩
      · intro h
        refine ⟨?_, nofun⟩
        intro b hb c hc
        cases hb
        cases hc
        exact h.symm
      · intro h
        exact (h.1 e rfl a rfl).symm

theorem getD_eq_self_iff (file : Option Str) (default : Str) :
    file.getD default = default ↔ ∀ r ∈ file, r = default := by
  cases file with
  | none => exact iff_of_true rfl nofun
  | some r => simp

theorem or_eq_self_iff (given file : Option Str) :
    given = given.or file ↔ (given = none → file = none) := by
  cases given with
  | none => exact ⟨fun h _ => h.symm, fun h => (h rfl).symm⟩
  | some a => exact iff_of_true rfl nofun

theorem argument_kept_iff (given : Str) (env : Option Str) :
    env.getD given = given ↔ Concurs (some given) env := by
  cases env with
  | none => exact iff_of_true rfl nofun
  | some e =>
    refine ⟨?_, ?_⟩
    · intro h b hb c hc
      cases hb
      cases hc
      exact h.symm
    · intro h
      exact (h e rfl given rfl).symm

theorem or_getD_eq {given file : Option Str} {default : Str}
    (h : given = none → ∀ r ∈ file, r = default) :
    (given.or file).getD default = given.getD default := by
  cases given with
  | none => exact (getD_eq_self_iff file default).mpr (h rfl)
  | some a => rfl

theorem settings_eq_precedence_iff (parser : ArgParser) (args : MountArgs) (env : Environment)
    (file : FileSettings) :
    ((ObsSettings.ofFile file).applyArgs parser args env).mergeEnv env =
      precedence args env file ↔ Undisputed args env file := by
  have hregion := getD_eq_iff_concurs args.region env.region file.region defaultRegion
    defaultRegion
  have hendpoint := getD_eq_iff_concurs args.endpoint env.endpoint file.endpoint
    (derivedEndpoint ((args.region.or env.region).getD defaultRegion))
    (derivedEndpoint (((args.region.or env.region).or file.region).getD defaultRegion))
  have hakey := or_eq_iff_concurs args.accessKey env.accessKey file.accessKey
  have hskey := or_eq_iff_concurs args.secretKey env.secretKey file.secretKey
  have hprefix := or_eq_self_iff args.obsPrefix file.obsPrefix
  rw [getD_eq_self_iff] at hregion
  simp only [ObsSettings.mergeEnv, ObsSettings.applyArgs, ObsSettings.ofFile, precedence,
    parser.optional_eq, parser.withDefault_eq, ObsSettings.mk.injEq, ObsConfig.mk.injEq,
    ObsSettings.default, ObsConfig.default, Option.or_none]
  rw [argument_kept_iff, hakey, hskey, hprefix, hregion, hendpoint]
  refine ⟨?_, ?_⟩
  · intro h
    obtain ⟨⟨hb, ha, hs, hp⟩, ⟨he, hfe⟩, hr, hfr⟩ := h
    -- without a region in the file's place, both endpoints are derived from the same region
    rw [or_getD_eq hfr] at hfe
    exact ⟨hb, he, hr, ha, hs, hfr, fun hn => (getD_eq_self_iff ..).mp (hfe hn), hp⟩
  · intro h
    rw [or_getD_eq h.fileRegion]
    exact ⟨⟨h.bucket, h.accessKey, h.secretKey, h.filePrefix⟩,
      ⟨h.endpoint, fun hn => (getD_eq_self_iff ..).mpr (h.fileEndpoint hn)⟩, h.region,
      h.fileRegion⟩

theorem mountSettings_ok {parser : ArgParser} {files : ConfigFiles} {args : MountArgs}
    {env : Environment} {settings : ObsSettings}
    (h : mountSettings parser files args env = .ok settings) :
    settings =
      ((ObsSettings.ofFile (files.inEffect args)).applyArgs parser args env).mergeEnv env := by
  unfold mountSettings ConfigFiles.fromDefaultLocation ConfigFiles.fromFile at h
  unfold ConfigFiles.inEffect
  cases hc : args.config with
  | some path =>
    rw [hc] at h
    dsimp only at h ⊢
    cases hl : files.load path with
    | error e =>
      rw [hl] at h
      cases h
    | ok file =>
      rw [hl] at h
      cases h
      rfl
  | none =>
    rw [hc] at h
    dsimp only at h ⊢
    split at h
    · next hthere =>
      rw [if_pos hthere]
      cases hl : files.load files.defaultConfigPath with
      | error e =>
        rw [hl] at h
        cases h
        rfl
      | ok file =>
        rw [hl] at h
        cases h
        rfl
    · next hmissing =>
      rw [if_neg hmissing]
      cases h
      rfl

/-- Whenever the mount gets settings, they are those of the documented order exactly when the
sources leave no doubt. -/
theorem mount_settings_precedence_iff (parser : ArgParser) (files : ConfigFiles)
    (args : MountArgs) (env : Environment) (settings : ObsSettings)
    (h : mountSettings parser files args env = .ok settings) :
    settings = precedence args env (files.inEffect args) ↔
      Undisputed args env (files.inEffect args) := by
  rw [mountSettings_ok h]
  exact settings_eq_precedence_iff parser args env (files.inEffect args)

/-- An argument for the endpoint, a variable for the access key and a file with the secret key. -/
theorem three_sources_in_order :
    let files : ConfigFiles := ⟨fun _ => .ok { FileSettings.empty with secretKey := some ['s'] },
      fun _ => true, ['c']⟩
    let args : MountArgs := ⟨['b'], some ['e'], none, none, none, none, none⟩
    let env : Environment := ⟨none, some ['a'], none, none, none⟩
    (⟨⟨['b'], some ['a'], some ['s'], none⟩, ['e'], defaultRegion⟩ : ObsSettings) =
      precedence args env (files.inEffect args) := by
  intro files args env
  refine (mount_settings_precedence_iff .standard files args env _ rfl).mpr ?_
  constructor <;> decide

/-- The bucket is given as an argument and `OBS_BUCKET` names another one, which is mounted. -/
theorem environment_replaces_bucket :
    let files : ConfigFiles := ⟨fun _ => .ok .empty, fun _ => false, []⟩
    let args : MountArgs := ⟨"data".toList, none, none, none, none, none, none⟩
    let env : Environment := ⟨none, none, none, none, some "other".toList⟩
    (mountSettings .standard files args env).toOption.map (·.bucket) = some "other".toList ∧
      (precedence args env (files.inEffect args)).bucket = "data".toList ∧
      (mountSettings .standard files args env).toOption ≠
        some (precedence args env (files.inEffect args)) := by
  decide

end ObsFuse
