import Sidecar.Config.File
import Sidecar.Proofs.Json.Text
import Sidecar.Proofs.Resource.FileTree
import Sidecar.Proofs.Toml.Documents

/-!
# The default configuration is loaded as it was written

A file that was written is found under the same text again, whatever the text says on its way
(`FileTree.findText?_of_writeFile?`): a file is never put in the place of a directory, so the way to
it stays as it was. A configuration whose numbers a document can hold is read from the text that
spells it (`Config.parse?_render`), and the default one is among them in every environment.

So the configuration that is loaded after the file was created is the default one with the overrides
(`Config.load_writeDefault`), and the file is created only once.
-/

namespace Sidecar

/-! ## Files by their text -/

namespace FileTree

variable {tree tree' : FileTree} {path q : Path} {content : Bytes} {text : String}

/-- A file is never written over a directory. -/
theorem isDirectory_of_write? (h : tree.write? path content = some tree') :
    tree.isDirectory path = false := by
  unfold write? at h
  split at h
  · cases h
  next hfree => exact Bool.eq_false_iff.2 fun hdir => hfree (.inl hdir)

/-- Placing a file where there is no directory leaves the directories. -/
theorem isDirectory_place_file (hfixed : path.isFixed = false) (h : tree.isDirectory path = false) :
    (tree.place path (.file content)).isDirectory q = tree.isDirectory q := by
  by_cases hq : q = path
  · subst hq
    rw [h, isDirectory, find?_place_self hfixed]
    rfl
  · rw [isDirectory, isDirectory, find?_place_of_ne hq]

/-- The way through a tree is told by its directories. -/
theorem target?_congr (h : ∀ q, tree'.isDirectory q = tree.isDirectory q) (s : Spelling) :
    tree'.target? s = tree.target? s := by
  have hfollow : tree'.follow? = tree.follow? := by
    funext place part
    rw [follow?, follow?, h]
  rw [target?, target?]
  simp only [followAll?, hfollow]

/-- A file that was written is found under the text it was written under. -/
theorem findText?_of_writeFile? (h : tree.writeFile? text content = some tree') :
    tree'.findText? text = some (.file content) := by
  obtain ⟨s, hs, h⟩ := Option.bind_eq_some_iff.1 h
  split at h
  · cases h
  next hasks =>
    obtain ⟨path, hpath, hwrite⟩ := Option.bind_eq_some_iff.1 h
    have hdir := isDirectory_of_write? hwrite
    obtain ⟨hfixed, rfl⟩ := write?_eq_some hwrite
    have htarget : (tree.place path (.file content)).target? s = some path :=
      (target?_congr (fun _ => isDirectory_place_file hfixed hdir) s).trans hpath
    rw [findText?, hs]
    simp [htarget, find?_place_self hfixed, hasks]

end FileTree

/-! ## Documents -/

namespace Config

/-- The numbers are sizes that a document can hold, and the place to listen at is one. -/
structure InRange (c : Config) : Prop where
  listenNumber : c.network.listenNumber < listenBound
  queueCapacity : c.streaming.queueCapacity < Toml.integerBound
  maxPayload : c.streaming.maxPayload < Toml.integerBound
  resourceChunk : c.streaming.resourceChunk < Toml.integerBound

/-- The sections of a configuration in range can be written. -/
theorem valid_sections {c : Config} (h : c.InRange) : ∀ s ∈ c.sections, s.Valid := by
  have hlisten : c.network.listenNumber < Toml.integerBound :=
    Nat.lt_trans h.listenNumber (by decide)
  simp only [sections, List.forall_mem_cons]
  refine ⟨.of_keys ["session_id", "task_id", "partition_id", "communication_token"] rfl (by decide)
      (by decide) (by decide) ?_,
    .of_keys ["listen_addr", "port"] rfl (by decide) (by decide) (by decide) ?_,
    .of_keys ["task_queue_capacity", "max_task_payload_bytes", "resource_chunk_bytes"] rfl
      (by decide) (by decide) (by decide) ?_,
    .of_keys ["resources_path", "in_memory"] rfl (by decide) (by decide) (by decide) ?_, nofun⟩
  · simp [Toml.Plain.InRange]
  · simp [Toml.Plain.InRange, hlisten]
  · simp [Toml.Plain.InRange, h.queueCapacity, h.maxPayload, h.resourceChunk]
  · simp [Toml.Plain.InRange]

/-- A number below the bound is read from its node. -/
theorem nat?_integer {n bound : Nat} (h : n < bound) :
    (Toml.Node.integer n).nat? bound = some n := by
  simp [Toml.Node.nat?, h]

/-- A configuration is read from the document of its sections. -/
theorem ofDocument?_document {c : Config} (h : c.InRange) (env : Environment) :
    ofDocument? env (Toml.document c.sections) = some c := by
  have hsize : ∀ {n : Nat}, n < Toml.integerBound → n < sizeBound := fun hn =>
    Nat.lt_trans hn (by decide)
  simp [ofDocument?, readSection, AgentSettings.read?, NetworkSettings.read?,
    StreamingSettings.read?, StorageSettings.read?, Toml.document, sections, Toml.Section.node,
    Toml.Plain.node, List.lookup_cons, Toml.Node.isSection, Toml.Node.field?, Toml.Node.readField,
    Toml.Node.text?, Toml.Node.flag?, nat?_integer h.listenNumber,
    nat?_integer (hsize h.queueCapacity), nat?_integer (hsize h.maxPayload),
    nat?_integer (hsize h.resourceChunk)]

/-- A configuration in range is read from the text that spells it. -/
theorem parse?_render {c : Config} (h : c.InRange) (env : Environment) :
    parse? env c.render = some c := by
  have hnames : (c.sections.map Toml.Section.name).Nodup := by
    simp [sections]
  have hparse := Toml.parse?_renderSections (valid_sections h) hnames
  calc parse? env c.render
      = (Toml.parse? (String.ofList (Toml.renderSections c.sections))).bind (ofDocument? env) := rfl
    _ = ofDocument? env (Toml.document c.sections) := by rw [hparse, Option.bind_some]
    _ = some c := ofDocument?_document h env

/-- The defaults are in range, whatever the environment says. -/
theorem inRange_default (env : Environment) : (default env).InRange where
  listenNumber := show NetworkSettings.default.listenNumber < listenBound by decide
  queueCapacity := show StreamingSettings.default.queueCapacity < Toml.integerBound by decide
  maxPayload := show StreamingSettings.default.maxPayload < Toml.integerBound by decide
  resourceChunk := show StreamingSettings.default.resourceChunk < Toml.integerBound by decide

/-! ## The file -/

variable {env : Environment} {tree : FileTree}

/-- Where there is something already, nothing is written. -/
theorem writeDefault_of_isSome (h : (tree.findText? env.configFile).isSome) :
    writeDefault env tree = (.ok env.configFile, tree) := by
  rw [writeDefault]
  simp [h]

/-- What is created spells the defaults, and is found under the path that is returned. -/
theorem writeDefault_eq_ok (hmissing : tree.findText? env.configFile = none) {path : String}
    (h : (writeDefault env tree).1 = .ok path) :
    path = env.configFile ∧ (writeDefault env tree).2.findText? env.configFile =
      some (.file (utf8 (default env).render)) := by
  rw [writeDefault, hmissing] at h ⊢
  simp only [Option.isSome_none, Bool.false_eq_true, if_false] at h ⊢
  cases hwrite : (tree.createParents env.configFile).writeFile? env.configFile
      (utf8 (default env).render) with
  | none =>
    rw [hwrite] at h
    cases h
  | some after =>
    rw [hwrite] at h
    exact ⟨(Except.ok.inj h).symm, FileTree.findText?_of_writeFile? hwrite⟩

/-- A file that spells a configuration in range is loaded as it, with the overrides. -/
theorem load_of_findText? {c : Config} (hc : c.InRange)
    (h : tree.findText? env.configFile = some (.file (utf8 c.render))) :
    load env tree = .ok (c.override env) := by
  have hbytes : ofBytes env env.configFile (utf8 c.render) = .ok c := by
    simp only [ofBytes, ofUtf8?_utf8, parse?_render hc]
  rw [load, loadFile, h]
  simp only [hbytes]
  rfl

/-- The default place of resources is below the directory of data, unless a variable names another
place. -/
theorem resourcesPath_override_default (env : Environment) :
    ((default env).override env).storage.resourcesPath =
      (env.get? "GRIDAGENT_STORAGE__RESOURCES_PATH").getD (joinPath env.dataDir "resources") := by
  simp [override, Environment.override, default, StorageSettings.default]

/-- If the file was missing and is created, the configuration that is loaded next is the default one
with the overrides, and resources are kept in the same place. The file is created once: whatever it
holds from then on, creating it again changes nothing and returns the same path. -/
theorem load_writeDefault {path : String} {after : FileTree}
    (hmissing : tree.findText? env.configFile = none)
    (hcreate : writeDefault env tree = (.ok path, after)) :
    (∃ c, load env after = .ok c ∧ c = (default env).override env ∧
      c.storage.resourcesPath =
        (env.get? "GRIDAGENT_STORAGE__RESOURCES_PATH").getD (joinPath env.dataDir "resources")) ∧
    writeDefault env after = (.ok path, after) ∧
    ∀ later : FileTree, (later.findText? path).isSome →
      writeDefault env later = (.ok path, later) := by
  obtain ⟨rfl, hfound⟩ := writeDefault_eq_ok hmissing (congrArg Prod.fst hcreate)
  rw [hcreate] at hfound
  have hload := load_of_findText? (inRange_default env) hfound
  have hagain : writeDefault env after = (.ok env.configFile, after) :=
    writeDefault_of_isSome (by simp [hfound])
  exact ⟨⟨_, hload, rfl, resourcesPath_override_default env⟩, hagain,
    fun later => writeDefault_of_isSome⟩

/-- A text of one letter says one name. -/
theorem spelling_of_c : Spelling.ofText? "c" = some ⟨[], ["c"], false, false⟩ := by
  have hsplit : "c".splitOn "/" = ["c"] := by
    rw [String.splitOn, if_neg (by decide), String.splitOnAux, if_neg (by decide),
      if_neg (by decide), String.splitOnAux, if_pos (by decide)]
    decide
  rw [Spelling.ofText?, hsplit]
  decide

/-- An environment whose directory of data has quotes, a backslash, a line break and a control
character in its name. -/
def oddEnvironment : Environment :=
  Dict.ofList [("GRIDAGENT_CONFIG", "c"), ("XDG_DATA_HOME", "'a' \"b\" \\ \n \x01")]

/-- The file that is created in that environment. -/
def oddTree : FileTree :=
  ⟨[(["c"], .file (utf8 (default oddEnvironment).render))]⟩

/-- A directory of data with odd characters is loaded as it was written. -/
theorem load_writeDefault_odd :
    FileTree.empty.findText? oddEnvironment.configFile = none ∧
      writeDefault oddEnvironment .empty = (.ok "c", oddTree) ∧
      ∃ c, load oddEnvironment oddTree = .ok c ∧
        c.storage.resourcesPath = "'a' \"b\" \\ \n \x01/gridagent/resources" := by
  have hfile : oddEnvironment.configFile = "c" := by decide
  have hmissing : FileTree.empty.findText? oddEnvironment.configFile = none := by
    rw [hfile, FileTree.findText?, spelling_of_c]
    decide
  have hcreate : writeDefault oddEnvironment .empty = (.ok "c", oddTree) := by
    rw [writeDefault, hmissing, hfile, oddTree]
    generalize utf8 (default oddEnvironment).render = content
    rw [FileTree.createParents, spelling_of_c]
    simp only [FileTree.writeFile?, spelling_of_c]
    rfl
  obtain ⟨c, hload, -, hpath⟩ := (load_writeDefault hmissing hcreate).1
  have hplace : (oddEnvironment.get? "GRIDAGENT_STORAGE__RESOURCES_PATH").getD
      (joinPath oddEnvironment.dataDir "resources") =
        "'a' \"b\" \\ \n \x01/gridagent/resources" := by
    decide
  exact ⟨hmissing, hcreate, c, hload, hpath.trans hplace⟩

end Config

end Sidecar
