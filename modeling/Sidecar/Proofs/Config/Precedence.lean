import Sidecar.Proofs.Config.Variables

/-!
# Variables come before the file, and the file before the defaults

A configuration is loaded exactly if there is something to load it from (`Config.exists_load_iff`):
no file, or one that spells a readable document (`Config.Source`). The value of each setting but one
is then the preferred one: its variable's, if that is valid, otherwise the document's, and otherwise
the default (`Config.Setting.Preferred`). It depends neither on the variables nor on the entries of
other settings.

The one setting is the size of a resource's buffers, whose variable is not heeded. It has its
preferred value exactly if the variable sets it to nothing else than it has anyway
(`Config.load_prefers_variables`).
-/

namespace Sidecar

namespace Config

open Toml (Node Plain)

variable {env env' : Environment} {c : Config} {s : Setting} {v : Plain}

/-! ## Environments that differ in other settings -/

/-- The environments agree on everything but the variables of other settings. -/
def Setting.AgreeOn (s : Setting) (env env' : Environment) : Prop :=
  ∀ name, (∀ other : Setting, other ≠ s → name ≠ other.variableName) →
    env.get? name = env'.get? name

/-- Another setting's variable may be set to anything. -/
theorem Setting.agreeOn_insert {other : Setting} (h : other ≠ s) (env : Environment)
    (text : String) : s.AgreeOn env (env.insert other.variableName text) :=
  fun _ hname => (Dict.get?_insert_of_ne env text (hname other h)).symm

namespace Setting.AgreeOn

theorem variable_eq (h : s.AgreeOn env env') :
    env.get? s.variableName = env'.get? s.variableName :=
  h _ fun _ hother heq => hother (variableName_injective heq.symm)

theorem get?_eq (h : s.AgreeOn env env') {name : String}
    (hname : name ∉ Setting.all.map Setting.variableName) : env.get? name = env'.get? name :=
  h _ fun other _ heq => hname (heq ▸ List.mem_map_of_mem other.mem_all)

/-- The directories and the place of the file depend on no setting's variable. -/
theorem places_eq (h : s.AgreeOn env env') :
    env.configFile = env'.configFile ∧ env.dataDir = env'.dataDir := by
  have hplaces : ∀ name ∈ ["HOME", "XDG_CONFIG_HOME", "XDG_DATA_HOME", "GRIDAGENT_CONFIG"],
      env.get? name = env'.get? name := by
    intro name hname
    refine h.get?_eq ?_
    rw [variableNames_eq]
    revert name
    decide
  simp only [List.forall_mem_cons] at hplaces
  obtain ⟨hhome, hconfig, hdata, hfile, -⟩ := hplaces
  simp only [Environment.configFile, Environment.configDir, Environment.dataDir, Environment.home,
    hhome, hconfig, hdata, hfile, and_self]

theorem default_eq (h : s.AgreeOn env env') : default env = default env' := by
  rw [default, default, StorageSettings.default, StorageSettings.default, h.places_eq.2]

end Setting.AgreeOn

/-! ## Loading -/

variable {tree tree' : FileTree} {document document' : Node}

/-- The document that the text of a file spells, or the empty one where there is no file. -/
inductive Source (tree : FileTree) (path : String) : Node → Prop
  | missing (hmissing : tree.findText? path = none) : Source tree path (.table .headed [])
  | file {content : Bytes} {text : String} {document : Node}
      (hfile : tree.findText? path = some (.file content)) (htext : ofUtf8? content = some text)
      (hparse : Toml.parse? text = some document) (hreadable : Readable document) :
      Source tree path document

/-- The value in the order of precedence: what the variable sets the setting to, or else what the
document gives for it, or else the default. -/
def Setting.Preferred (s : Setting) (env : Environment) (document : Node) (v : Plain) : Prop :=
  ∃ below, s.Given env document below ∧ s.Overridden env below v

/-- The configuration is loaded from its source. -/
theorem load_of_source (h : Source tree env.configFile document) :
    ∃ c, ofDocument? env document = some c ∧ load env tree = .ok (c.override env) := by
  cases h with
  | missing hmissing =>
    refine ⟨default env, rfl, ?_⟩
    rw [load, loadFile, hmissing]
    rfl
  | @file content text _ hfile htext hparse hreadable =>
    obtain ⟨c, hc⟩ : ∃ c, ofDocument? env document = some c :=
      exists_ofDocument?_iff.2 hreadable
    have hbytes : ofBytes env env.configFile content = .ok c := by
      simp only [ofBytes, htext, parse?, hparse, Option.bind_eq_bind, Option.bind_some, hc]
    refine ⟨c, hc, ?_⟩
    rw [load, loadFile, hfile]
    simp only [hbytes]
    rfl

/-- A configuration is loaded exactly if there is something to load it from. -/
theorem exists_load_iff :
    (∃ c, load env tree = .ok c) ↔ ∃ document, Source tree env.configFile document := by
  constructor
  · rintro ⟨c, h⟩
    rw [load, loadFile] at h
    split at h
    next hmissing => exact ⟨_, .missing hmissing⟩
    next => cases h
    next content hfile =>
      rw [ofBytes] at h
      split at h
      next => cases h
      next text htext =>
        split at h
        next => cases h
        next c₀ hc₀ =>
          obtain ⟨document, hparse, hc⟩ := Option.bind_eq_some_iff.1 hc₀
          exact ⟨document, .file hfile htext hparse (exists_ofDocument?_iff.1 ⟨_, hc⟩)⟩
  · rintro ⟨document, h⟩
    obtain ⟨c, -, hload⟩ := load_of_source h
    exact ⟨_, hload⟩

/-- One value is preferred: what the variable is read as, or else what the document is. -/
theorem Setting.preferred_iff {below : Plain} (h : s.fromDocument? env document = some below) :
    s.Preferred env document v ↔ v = (s.fromEnvironment? env).getD below := by
  simp [Preferred, given_iff_fromDocument?, h, overridden_iff, eq_comm]

/-- What is read of the setting depends on nothing else. -/
theorem Setting.AgreeOn.fromDocument?_eq (h : s.AgreeOn env env')
    (hentry : s.entry? document' = s.entry? document) :
    s.fromDocument? env' document' = s.fromDocument? env document := by
  rw [fromDocument?, fromDocument?, hentry, h.default_eq]

/-- The value of a setting depends on nothing else. -/
theorem Setting.AgreeOn.get_override_eq (h : s.AgreeOn env env') {c' : Config}
    (hget : s.get c' = s.get c) : s.get (c'.override env') = s.get (c.override env) := by
  by_cases hs : s = .resourceChunk
  · subst hs
    rw [get_override_resourceChunk, get_override_resourceChunk, hget]
  · rw [get_override c hs, get_override c' hs, hget, fromEnvironment?, fromEnvironment?,
      h.variable_eq]

/-- Where there is something to load a configuration from, it is loaded. Each setting but one has
its preferred value, and there is no other. The size of a resource's buffers has the value given
below the variables, which is the preferred one exactly if its variable sets it to nothing else. The
value of a setting is the same in all environments and for all files that agree on this setting. -/
theorem load_prefers_variables (h : Source tree env.configFile document) :
    ∃ c, load env tree = .ok c ∧
      (∀ (s : Setting) (v : Plain), s ≠ .resourceChunk →
        (s.Preferred env document v ↔ v = s.get c)) ∧
      (∀ v, Setting.resourceChunk.Given env document v ↔ v = Setting.resourceChunk.get c) ∧
      (Setting.resourceChunk.Preferred env document (Setting.resourceChunk.get c) ↔
        ∀ v, Setting.resourceChunk.SetBy env v → v = Setting.resourceChunk.get c) ∧
      ∀ (s : Setting) (env' : Environment) (tree' : FileTree) (document' : Node),
        s.AgreeOn env env' → Source tree' env.configFile document' →
          s.entry? document' = s.entry? document →
            ∃ c', load env' tree' = .ok c' ∧ s.get c' = s.get c := by
  obtain ⟨c, hc, hload⟩ := load_of_source h
  have hread := fromDocument?_of_ofDocument? hc
  refine ⟨_, hload, fun s v hs => ?_, fun v => ?_, ?_, ?_⟩
  · rw [get_override c hs, Setting.preferred_iff (hread s)]
  · rw [Setting.given_iff_fromDocument?, hread, Option.some.injEq]
    exact eq_comm
  · rw [Setting.preferred_iff (hread _), get_override_resourceChunk]
    simp only [Setting.setBy_iff_fromEnvironment?]
    cases Setting.resourceChunk.fromEnvironment? env <;> simp [eq_comm]
  · -- the other environment names the same file, and the same default for this setting
    intro s env' tree' document' hagree hsource hentry
    rw [hagree.places_eq.1] at hsource
    obtain ⟨c', hc', hload'⟩ := load_of_source hsource
    have hread' := fromDocument?_of_ofDocument? hc' s
    rw [hagree.fromDocument?_eq hentry, hread s] at hread'
    exact ⟨_, hload', hagree.get_override_eq (Option.some.inj hread').symm⟩

/-- An environment in which some settings are set well, some badly, and most are not. -/
def mixedEnvironment : Environment where
  entries :=
    [("GRIDAGENT_CONFIG", "c"), ("GRIDAGENT_NETWORK__PORT", "+0081"),
      ("GRIDAGENT_STORAGE__IN_MEMORY", "yes"),
      ("GRIDAGENT_STREAMING__MAX_TASK_PAYLOAD_BYTES", "many"),
      ("GRIDAGENT_STREAMING__RESOURCE_CHUNK_BYTES", "4096"),
      ("GRIDAGENT_STREAMING__TASK_QUEUE_CAPACITY", "0")]
  sorted := by decide

/-- Sections in which most settings are missing. -/
def partialSections : List Toml.Section :=
  [⟨"streaming", [("task_queue_capacity", .number 4), ("max_task_payload_bytes", .number 7)]⟩,
    ⟨"storage", [("in_memory", .flag true)]⟩]

/-- A tree with nothing but the file of these sections. -/
def partialTree : FileTree :=
  ⟨[(["c"], .file (utf8 (String.ofList (Toml.renderSections partialSections))))]⟩

/-- The file is a source. -/
theorem source_partialTree :
    Source partialTree mixedEnvironment.configFile (Toml.document partialSections) := by
  have hconfig : mixedEnvironment.configFile = "c" := by decide
  have hvalid : ∀ part ∈ partialSections, part.Valid := by
    simp only [partialSections, List.forall_mem_cons]
    refine ⟨.of_keys _ rfl (by decide) (by decide) (by decide) ?_,
      .of_keys _ rfl (by decide) (by decide) (by decide) ?_, nofun⟩
    · simp [Toml.Plain.InRange, Toml.integerBound]
    · simp [Toml.Plain.InRange]
  refine .file ?_ (ofUtf8?_utf8 _) (Toml.parse?_renderSections hvalid (by decide)) ?_
  · rw [hconfig, partialTree]
    generalize utf8 _ = content
    rw [FileTree.findText?, spelling_of_c]
    rfl
  · exact exists_ofDocument?_iff.1 ⟨⟨_, _, _, _⟩, (rfl : ofDocument? .empty _ = _)⟩

/-- The variables that are set well come before the file, and the file before the defaults. Another
value for the number to listen at leaves the capacity of the queue as it is. -/
theorem load_prefers_variables_over_partial_file :
    Source partialTree mixedEnvironment.configFile (Toml.document partialSections) ∧
      ∃ c, load mixedEnvironment partialTree = .ok c ∧
        Setting.listenAddress.get c = .text "127.0.0.1" ∧
        Setting.listenNumber.get c = .number 81 ∧ Setting.queueCapacity.get c = .number 1 ∧
        Setting.maxPayload.get c = .number 7 ∧ Setting.resourceChunk.get c = .number 32768 ∧
        Setting.inMemory.get c = .flag false ∧
        ∀ text, ∃ c',
          load (mixedEnvironment.insert Setting.listenNumber.variableName text) partialTree =
            .ok c' ∧ Setting.queueCapacity.get c' = .number 1 := by
  refine ⟨source_partialTree, ?_⟩
  obtain ⟨c, hload, hpreferred, hchunk, -, hother⟩ := load_prefers_variables source_partialTree
  have hvalue : ∀ (s : Setting) (below v : Plain), s ≠ .resourceChunk →
      s.fromDocument? mixedEnvironment (Toml.document partialSections) = some below →
      (s.fromEnvironment? mixedEnvironment).getD below = v → s.get c = v := by
    intro s below v hs hbelow hv
    exact ((hpreferred s v hs).1 ((Setting.preferred_iff hbelow).2 hv.symm)).symm
  have hcapacity := hvalue .queueCapacity _ (.number 1) (by decide) rfl (by decide +kernel)
  refine ⟨c, hload, ?_, ?_, hcapacity, ?_, ?_, ?_, fun text => ?_⟩
  · exact hvalue .listenAddress _ _ (by decide) rfl (by decide +kernel)
  · exact hvalue .listenNumber _ _ (by decide) rfl (by decide +kernel)
  · exact hvalue .maxPayload _ _ (by decide) rfl (by decide +kernel)
  · exact ((hchunk _).1 (Setting.given_iff_fromDocument?.2 rfl)).symm
  · exact hvalue .inMemory _ _ (by decide) rfl (by decide +kernel)
  · have hne : Setting.listenNumber ≠ .queueCapacity := by decide
    obtain ⟨c', hload', hget⟩ := hother .queueCapacity _ _ _
      (Setting.agreeOn_insert hne mixedEnvironment text) source_partialTree rfl
    exact ⟨c', hload', hget.trans hcapacity⟩

/-- The size of the buffers is set by its variable to a valid value, and the default is loaded. -/
theorem resourceChunk_variable_unheeded :
    let env : Environment :=
      Dict.ofList [("GRIDAGENT_CONFIG", "c"), ("GRIDAGENT_STREAMING__RESOURCE_CHUNK_BYTES", "4096")]
    Source .empty env.configFile (.table .headed []) ∧
      Setting.resourceChunk.Preferred env (.table .headed []) (.number 4096) ∧
      ∃ c, load env .empty = .ok c ∧ Setting.resourceChunk.get c = .number 32768 := by
  intro env
  have hconfig : env.configFile = "c" := by decide
  have hmissing : FileTree.empty.findText? env.configFile = none := by
    rw [hconfig, FileTree.findText?, spelling_of_c]
    decide
  have hset : Setting.resourceChunk.fromEnvironment? env = some (.number 4096) := by
    decide +kernel
  have hdefault : Setting.resourceChunk.fromDocument? env (.table .headed []) =
      some (.number 32768) := rfl
  obtain ⟨c, hc, hload⟩ := load_of_source (.missing hmissing)
  have hget := fromDocument?_of_ofDocument? hc .resourceChunk
  refine ⟨.missing hmissing, (Setting.preferred_iff hdefault).2 (by rw [hset]; rfl), _, hload, ?_⟩
  exact Option.some.inj (hget.symm.trans hdefault)

end Config

end Sidecar
