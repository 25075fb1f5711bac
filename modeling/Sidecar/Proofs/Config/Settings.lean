import Sidecar.Proofs.Config.Loading

/-!
# The settings in a document

Each value of each section of a configuration is a `Setting`, and there are no others
(`Config.sections_eq_settings`). A setting stands at one place of a document and takes values of one
kind, and all that a document does to it is to give it a value or not (`Setting.Given`).

A document is read as a configuration exactly if it is readable (`Config.exists_ofDocument?_iff`):
if its sections are sections and what it gives is of the right kind. The configuration has, for each
setting on its own, the given value or the default (`Config.fromDocument?_of_ofDocument?`).
-/

namespace Sidecar

open Toml (Node Plain)

namespace Config

/-! ## Settings -/

/-- The settings, section by section and in their order there. -/
inductive Setting where
  | sessionId
  | taskId
  | partitionId
  | token
  | listenAddress
  | listenNumber
  | queueCapacity
  | maxPayload
  | resourceChunk
  | resourcesPath
  | inMemory
deriving DecidableEq, Repr

/-- The kinds of values: texts, numbers below a bound, and truth values. -/
inductive Kind where
  | text
  | number (bound : Nat)
  | flag
deriving DecidableEq, Repr

/-- Where a setting stands in a document: in which section, at which index and under which key. -/
structure Place where
  sectionName : String
  index : Nat
  key : String
deriving DecidableEq, Repr

namespace Setting

/-- All settings in their order. -/
def all : List Setting :=
  [sessionId, taskId, partitionId, token, listenAddress, listenNumber, queueCapacity, maxPayload,
    resourceChunk, resourcesPath, inMemory]

/-- Where the setting stands. -/
def place : Setting → Place
  | sessionId => ⟨"agent", 0, "session_id"⟩
  | taskId => ⟨"agent", 1, "task_id"⟩
  | partitionId => ⟨"agent", 2, "partition_id"⟩
  | token => ⟨"agent", 3, "communication_token"⟩
  | listenAddress => ⟨"network", 0, "listen_addr"⟩
  | listenNumber => ⟨"network", 1, "port"⟩
  | queueCapacity => ⟨"streaming", 0, "task_queue_capacity"⟩
  | maxPayload => ⟨"streaming", 1, "max_task_payload_bytes"⟩
  | resourceChunk => ⟨"streaming", 2, "resource_chunk_bytes"⟩
  | resourcesPath => ⟨"storage", 0, "resources_path"⟩
  | inMemory => ⟨"storage", 1, "in_memory"⟩

/-- The kind of the setting's values. -/
def kind : Setting → Kind
  | sessionId | taskId | partitionId | token | listenAddress | resourcesPath => .text
  | listenNumber => .number listenBound
  | queueCapacity | maxPayload | resourceChunk => .number sizeBound
  | inMemory => .flag

/-- The value of the setting in a configuration. -/
def get : Setting → Config → Plain
  | sessionId, c => .text c.agent.sessionId
  | taskId, c => .text c.agent.taskId
  | partitionId, c => .text c.agent.partitionId
  | token, c => .text c.agent.token
  | listenAddress, c => .text c.network.listenAddress
  | listenNumber, c => .number c.network.listenNumber
  | queueCapacity, c => .number c.streaming.queueCapacity
  | maxPayload, c => .number c.streaming.maxPayload
  | resourceChunk, c => .number c.streaming.resourceChunk
  | resourcesPath, c => .text c.storage.resourcesPath
  | inMemory, c => .flag c.storage.inMemory

/-- Something holds of all settings if it holds of those of each section. -/
theorem forall_iff {P : Setting → Prop} :
    (∀ s, P s) ↔ (P sessionId ∧ P taskId ∧ P partitionId ∧ P token) ∧
      (P listenAddress ∧ P listenNumber) ∧ (P queueCapacity ∧ P maxPayload ∧ P resourceChunk) ∧
      P resourcesPath ∧ P inMemory := by
  refine ⟨fun h => ⟨⟨h _, h _, h _, h _⟩, ⟨h _, h _⟩, ⟨h _, h _, h _⟩, h _, h _⟩, ?_⟩
  rintro ⟨⟨_, _, _, _⟩, ⟨_, _⟩, ⟨_, _, _⟩, _, _⟩ s
  cases s <;> assumption

/-- Every setting is listed. -/
theorem mem_all (s : Setting) : s ∈ all := by
  cases s <;> decide

end Setting

/-- The settings are all that is written of a configuration, at their places and in their order. -/
theorem sections_eq_settings (c : Config) :
    (c.sections.flatMap fun part => part.entries.mapIdx fun i entry =>
        ((⟨part.name, i, entry.1⟩ : Place), entry.2)) =
      Setting.all.map fun s => (s.place, s.get c) :=
  rfl

/-! ## What a document gives -/

/-- The values of a kind. -/
def Kind.Admits : Kind → Plain → Prop
  | text, .text _ => True
  | number bound, .number n => n < bound
  | flag, .flag _ => True
  | _, _ => False

theorem Kind.admits_text_iff {v : Plain} : Kind.text.Admits v ↔ ∃ t, v = .text t := by
  cases v <;> simp [Admits]

theorem Kind.admits_number_iff {bound : Nat} {v : Plain} :
    (Kind.number bound).Admits v ↔ ∃ n < bound, v = .number n := by
  cases v <;> simp [Admits]

theorem Kind.admits_flag_iff {v : Plain} : Kind.flag.Admits v ↔ ∃ b, v = .flag b := by
  cases v <;> simp [Admits]

namespace Setting

/-- What stands at the setting's place in a document, if anything does. -/
def entry? (s : Setting) (document : Node) : Option Node :=
  (document.field? 0 s.place.sectionName).bind fun part => part.field? s.place.index s.place.key

/-- The value that a document gives for the setting, or the default where it gives none. -/
inductive Given (s : Setting) (env : Environment) (document : Node) : Plain → Prop
  | entry {v : Plain} (hentry : s.entry? document = some v.node) (hkind : s.kind.Admits v) :
      Given s env document v
  | default (hmissing : s.entry? document = none) : Given s env document (s.get (.default env))

end Setting

/-- The document can be read: its sections are sections, and each entry of a setting is a value of
the setting's kind. -/
structure Readable (document : Node) : Prop where
  sections : ∀ (s : Setting) (part : Node),
    document.field? 0 s.place.sectionName = some part → part.isSection
  entries : ∀ (s : Setting) (entry : Node),
    s.entry? document = some entry → ∃ v, s.kind.Admits v ∧ v.node = entry

/-! ## One entry -/

/-- The value that is read from an entry, or the default where there is none. -/
def readEntry {α : Type} (entry : Option Node) (read : Node → Option α) (default : α) : Option α :=
  match entry with
  | some node => read node
  | none => some default

/-- The value of the kind that a node stands for. -/
def Kind.ofNode? : Kind → Node → Option Plain
  | text, node => node.text?.map .text
  | number bound, node => (node.nat? bound).map .number
  | flag, node => node.flag?.map .flag

/-- A number is read exactly from the node it stands for, if it is below the bound. -/
theorem nat?_eq_some_iff {node : Node} {bound n : Nat} :
    node.nat? bound = some n ↔ n < bound ∧ Node.integer n = node := by
  constructor
  · intro h
    unfold Node.nat? at h
    split at h
    next i =>
      obtain ⟨hi, hn⟩ := Option.ite_none_right_eq_some.1 h
      simp only [Option.some.injEq] at hn
      refine ⟨by omega, congrArg Node.integer ?_⟩
      omega
    next => cases h
  · rintro ⟨h, rfl⟩
    exact nat?_integer h

/-- A value of a kind is read exactly from the node it stands for. -/
theorem Kind.ofNode?_eq_some_iff {k : Kind} {node : Node} {v : Plain} :
    k.ofNode? node = some v ↔ k.Admits v ∧ v.node = node := by
  cases k with
  | text => cases node <;> cases v <;> simp [ofNode?, Node.text?, Admits, Plain.node, eq_comm]
  | number bound =>
    cases v <;> simp [ofNode?, Admits, nat?_eq_some_iff, Plain.node]
  | flag => cases node <;> cases v <;> simp [ofNode?, Node.flag?, Admits, Plain.node, eq_comm]

section Entries

variable {entry : Option Node}

theorem readField_eq {α : Type} (node : Node) (index : Nat) (key : String)
    (read : Node → Option α) (default : α) :
    node.readField index key read default = readEntry (node.field? index key) read default :=
  rfl

@[simp] theorem readEntry_text (default : String) :
    readEntry entry Kind.text.ofNode? (.text default) =
      (readEntry entry Node.text? default).map .text := by
  cases entry <;> rfl

@[simp] theorem readEntry_number (bound default : Nat) :
    readEntry entry (Kind.number bound).ofNode? (.number default) =
      (readEntry entry (Node.nat? bound) default).map .number := by
  cases entry <;> rfl

@[simp] theorem readEntry_flag (default : Bool) :
    readEntry entry Kind.flag.ofNode? (.flag default) =
      (readEntry entry Node.flag? default).map .flag := by
  cases entry <;> rfl

end Entries

/-! ## One section -/

variable {env : Environment} {document part : Node} {c : Config}

/-- The value of the setting that a document is read as. -/
def Setting.fromDocument? (s : Setting) (env : Environment) (document : Node) : Option Plain :=
  readEntry (s.entry? document) s.kind.ofNode? (s.get (.default env))

/-- What is read of a setting is what is given. -/
theorem Setting.given_iff_fromDocument? {s : Setting} {v : Plain} :
    s.Given env document v ↔ s.fromDocument? env document = some v := by
  constructor
  · rintro (⟨hentry, hkind⟩ | hmissing)
    · rw [fromDocument?, hentry]
      exact Kind.ofNode?_eq_some_iff.2 ⟨hkind, rfl⟩
    · rw [fromDocument?, hmissing]
      rfl
  · intro h
    cases hentry : s.entry? document with
    | none =>
      rw [fromDocument?, hentry] at h
      exact Option.some.inj h ▸ .default hentry
    | some node =>
      rw [fromDocument?, hentry] at h
      obtain ⟨hkind, rfl⟩ := Kind.ofNode?_eq_some_iff.1 h
      exact .entry hentry hkind

/-- The section of that name is one, and its settings are read as the configuration has them. -/
@[mk_iff]
structure Setting.ReadInSection (env : Environment) (document : Node) (c : Config)
    (name : String) : Prop where
  isSection : ∀ part, document.field? 0 name = some part → part.isSection
  read : ∀ s : Setting, s.place.sectionName = name → s.fromDocument? env document = some (s.get c)

/-- A section is read by its settings if its own function does so where it is there, and the default
has their defaults. -/
theorem readSection_eq_some_iff {α : Type} {read : Node → Option α} {default value : α}
    {name : String}
    (hread : ∀ part, read part = some value ↔ ∀ s : Setting, s.place.sectionName = name →
      readEntry (part.field? s.place.index s.place.key) s.kind.ofNode? (s.get (.default env)) =
        some (s.get c))
    (hdefault : default = value ↔ ∀ s : Setting, s.place.sectionName = name →
      s.get (.default env) = s.get c) :
    readSection document name default read = some value ↔
      Setting.ReadInSection env document c name := by
  cases hpart : document.field? 0 name with
  | none =>
    -- a section that is missing leaves all its settings to their defaults
    have hmissing : ∀ s : Setting, s.place.sectionName = name →
        s.fromDocument? env document = some (s.get (.default env)) := by
      rintro s rfl
      rw [Setting.fromDocument?, Setting.entry?, hpart]
      rfl
    rw [readSection, hpart, Setting.readInSection_iff]
    simp +contextual [hpart, hmissing, hdefault]
  | some part =>
    have hthere : ∀ s : Setting, s.place.sectionName = name → s.fromDocument? env document =
        readEntry (part.field? s.place.index s.place.key) s.kind.ofNode?
          (s.get (.default env)) := by
      rintro s rfl
      rw [Setting.fromDocument?, Setting.entry?, hpart]
      rfl
    rw [readSection, hpart, Setting.readInSection_iff]
    simp +contextual [hpart, hthere, hread]

theorem readSection_agent (env : Environment) :
    readSection document "agent" .default AgentSettings.read? = some c.agent ↔
      Setting.ReadInSection env document c "agent" := by
  obtain ⟨⟨_, _, _, _⟩, _, _, _⟩ := c
  refine readSection_eq_some_iff (fun part => ?_) ?_
  · simp [Setting.forall_iff, Setting.place, Setting.kind, Setting.get, AgentSettings.read?,
      readField_eq, Option.bind_eq_some_iff, default]
  · simp [Setting.forall_iff, Setting.place, Setting.get, AgentSettings.default, default]

theorem readSection_network (env : Environment) :
    readSection document "network" .default NetworkSettings.read? = some c.network ↔
      Setting.ReadInSection env document c "network" := by
  obtain ⟨_, ⟨_, _⟩, _, _⟩ := c
  refine readSection_eq_some_iff (fun part => ?_) ?_
  · simp [Setting.forall_iff, Setting.place, Setting.kind, Setting.get, NetworkSettings.read?,
      readField_eq, Option.bind_eq_some_iff, default]
  · simp [Setting.forall_iff, Setting.place, Setting.get, NetworkSettings.default, default]

theorem readSection_streaming (env : Environment) :
    readSection document "streaming" .default StreamingSettings.read? = some c.streaming ↔
      Setting.ReadInSection env document c "streaming" := by
  obtain ⟨_, _, ⟨_, _, _⟩, _⟩ := c
  refine readSection_eq_some_iff (fun part => ?_) ?_
  · simp [Setting.forall_iff, Setting.place, Setting.kind, Setting.get, StreamingSettings.read?,
      readField_eq, Option.bind_eq_some_iff, default]
  · simp [Setting.forall_iff, Setting.place, Setting.get, StreamingSettings.default, default]

theorem readSection_storage :
    readSection document "storage" (.default env) (StorageSettings.read? env) = some c.storage ↔
      Setting.ReadInSection env document c "storage" := by
  obtain ⟨_, _, _, ⟨_, _⟩⟩ := c
  refine readSection_eq_some_iff (fun part => ?_) ?_
  · simp [Setting.forall_iff, Setting.place, Setting.kind, Setting.get, StorageSettings.read?,
      readField_eq, Option.bind_eq_some_iff, default]
  · simp [Setting.forall_iff, Setting.place, Setting.get, StorageSettings.default, default]

/-! ## The whole document -/

/-- The document is read as a configuration exactly if it is section by section. -/
theorem ofDocument?_eq_some_iff :
    ofDocument? env document = some c ↔
      ∀ s : Setting, Setting.ReadInSection env document c s.place.sectionName := by
  -- the sections are read one after the other, and none depends on what another was read as
  have hsections : ofDocument? env document = some c ↔
      readSection document "agent" .default AgentSettings.read? = some c.agent ∧
      readSection document "network" .default NetworkSettings.read? = some c.network ∧
      readSection document "streaming" .default StreamingSettings.read? = some c.streaming ∧
      readSection document "storage" (.default env) (StorageSettings.read? env) =
        some c.storage := by
    obtain ⟨_, _, _, _⟩ := c
    simp [ofDocument?, Option.bind_eq_some_iff]
  rw [hsections, readSection_agent env, readSection_network env, readSection_streaming env,
    readSection_storage]
  simp [Setting.forall_iff, Setting.place]

/-- Every default is of its setting's kind. -/
theorem Setting.admits_default (s : Setting) (env : Environment) :
    s.kind.Admits (s.get (.default env)) := by
  cases s with
  | listenNumber => exact (inRange_default env).listenNumber
  | queueCapacity => exact Nat.lt_trans (inRange_default env).queueCapacity (by decide)
  | maxPayload => exact Nat.lt_trans (inRange_default env).maxPayload (by decide)
  | resourceChunk => exact Nat.lt_trans (inRange_default env).resourceChunk (by decide)
  | _ => trivial

/-- What is given is of the setting's kind. -/
theorem Setting.Given.admits {s : Setting} {v : Plain} (h : s.Given env document v) :
    s.kind.Admits v := by
  cases h with
  | entry _ hkind => exact hkind
  | default _ => exact s.admits_default env

/-- Values of their settings' kinds make up a configuration. -/
theorem exists_get_eq {value : Setting → Plain} (h : ∀ s : Setting, s.kind.Admits (value s)) :
    ∃ c : Config, ∀ s : Setting, s.get c = value s := by
  obtain ⟨sessionId, h₁⟩ := Kind.admits_text_iff.1 (h .sessionId)
  obtain ⟨taskId, h₂⟩ := Kind.admits_text_iff.1 (h .taskId)
  obtain ⟨partitionId, h₃⟩ := Kind.admits_text_iff.1 (h .partitionId)
  obtain ⟨token, h₄⟩ := Kind.admits_text_iff.1 (h .token)
  obtain ⟨listenAddress, h₅⟩ := Kind.admits_text_iff.1 (h .listenAddress)
  obtain ⟨listenNumber, -, h₆⟩ := Kind.admits_number_iff.1 (h .listenNumber)
  obtain ⟨queueCapacity, -, h₇⟩ := Kind.admits_number_iff.1 (h .queueCapacity)
  obtain ⟨maxPayload, -, h₈⟩ := Kind.admits_number_iff.1 (h .maxPayload)
  obtain ⟨resourceChunk, -, h₉⟩ := Kind.admits_number_iff.1 (h .resourceChunk)
  obtain ⟨resourcesPath, h₁₀⟩ := Kind.admits_text_iff.1 (h .resourcesPath)
  obtain ⟨inMemory, h₁₁⟩ := Kind.admits_flag_iff.1 (h .inMemory)
  refine ⟨⟨⟨sessionId, taskId, partitionId, token⟩, ⟨listenAddress, listenNumber⟩,
    ⟨queueCapacity, maxPayload, resourceChunk⟩, ⟨resourcesPath, inMemory⟩⟩, ?_⟩
  simp only [Setting.forall_iff, Setting.get, *, and_self]

/-- The configuration that a document is read as has what is read of each setting. -/
theorem fromDocument?_of_ofDocument? (h : ofDocument? env document = some c) (s : Setting) :
    s.fromDocument? env document = some (s.get c) :=
  (ofDocument?_eq_some_iff.1 h s).read s rfl

/-- A readable document gives something for each setting, or leaves it to its default. -/
theorem Readable.exists_given (h : Readable document) (env : Environment) (s : Setting) :
    ∃ v, s.Given env document v := by
  cases hentry : s.entry? document with
  | none => exact ⟨_, .default hentry⟩
  | some node =>
    obtain ⟨v, hkind, rfl⟩ := h.entries s node hentry
    exact ⟨v, .entry hentry hkind⟩

/-- A document is read as a configuration exactly if it is readable. -/
theorem exists_ofDocument?_iff : (∃ c, ofDocument? env document = some c) ↔ Readable document := by
  constructor
  · rintro ⟨c, h⟩
    refine ⟨fun s => (ofDocument?_eq_some_iff.1 h s).isSection, fun s node hentry => ?_⟩
    have hread := fromDocument?_of_ofDocument? h s
    rw [Setting.fromDocument?, hentry] at hread
    exact ⟨_, Kind.ofNode?_eq_some_iff.1 hread⟩
  · intro h
    choose value hvalue using h.exists_given env
    obtain ⟨c, hc⟩ := exists_get_eq fun s => (hvalue s).admits
    refine ⟨c, ofDocument?_eq_some_iff.2 fun s => ⟨h.sections s, fun s' _ => ?_⟩⟩
    rw [hc s']
    exact Setting.given_iff_fromDocument?.1 (hvalue s')

end Config

end Sidecar
