import Sidecar.Dict
import Sidecar.Toml.Parse
import Sidecar.Toml.Render

/-!
# Configuration

A configuration has four sections. Each value of each section has a default, may be given in a
file, and may be overridden by a variable of the environment, in this order of precedence
(`Config.override`). A variable that is no valid value is ignored.

A section of a file is a table, or an array of its values in their order. Keys nobody knows are
ignored; a value of the wrong type is an error.
-/

namespace Sidecar

/-- The variables of the environment. -/
abbrev Environment := Dict String

/-- Whom the agent serves, and the secret. An empty secret asks for a fresh one. -/
structure AgentSettings where
  sessionId : String
  taskId : String
  partitionId : String
  token : String
deriving DecidableEq, Repr

/-- Where the agent listens: an address and a number at it. Zero leaves the choice of the number to
the system. -/
structure NetworkSettings where
  listenAddress : String
  listenNumber : Nat
deriving DecidableEq, Repr

/-- The headers buffered ahead of a submission, the longest payload with zero for no limit, and the
size of the buffers a resource is sent in. -/
structure StreamingSettings where
  queueCapacity : Nat
  maxPayload : Nat
  resourceChunk : Nat
deriving DecidableEq, Repr

/-- Where resources are kept. -/
structure StorageSettings where
  resourcesPath : String
  inMemory : Bool
deriving DecidableEq, Repr

/-- The whole configuration. -/
structure Config where
  agent : AgentSettings
  network : NetworkSettings
  streaming : StreamingSettings
  storage : StorageSettings
deriving DecidableEq, Repr

/-! ## Places -/

/-- A path below another one. -/
def joinPath (base name : String) : String :=
  if base = "" then name
  else if base.toList.getLast? = some '/' then base ++ name
  else base ++ "/" ++ name

namespace Environment

/-- The home directory. -/
def home (env : Environment) : String := (env.get? "HOME").getD "/tmp"

/-- The directory of configuration files. -/
def configDir (env : Environment) : String :=
  joinPath ((env.get? "XDG_CONFIG_HOME").getD (joinPath env.home ".config")) "gridagent"

/-- The directory of data. -/
def dataDir (env : Environment) : String :=
  joinPath ((env.get? "XDG_DATA_HOME").getD (joinPath (joinPath env.home ".local") "share"))
    "gridagent"

/-- The configuration file. -/
def configFile (env : Environment) : String :=
  (env.get? "GRIDAGENT_CONFIG").getD (joinPath env.configDir "config.toml")

end Environment

/-! ## Defaults -/

/-- The default identity. -/
def AgentSettings.default : AgentSettings := ⟨"local-session", "local-task", "", ""⟩

/-- The default address. -/
def NetworkSettings.default : NetworkSettings := ⟨"127.0.0.1", 10180⟩

/-- The default sizes. -/
def StreamingSettings.default : StreamingSettings := ⟨10, 64 * 1024 * 1024, 32 * 1024⟩

/-- The default store, below the directory of data. -/
def StorageSettings.default (env : Environment) : StorageSettings :=
  ⟨joinPath env.dataDir "resources", false⟩

/-- The default configuration. -/
def Config.default (env : Environment) : Config :=
  ⟨.default, .default, .default, .default env⟩

/-! ## Files -/

namespace Toml

namespace Node

/-- Can the node be a section? A date can, and gives no value. -/
def isSection : Node → Bool
  | table _ _ | array _ | datetime => true
  | _ => false

/-- The value a section gives for a field, by its key or by its place. -/
def field? (node : Node) (index : Nat) (key : String) : Option Node :=
  match node with
  | table _ entries => entries.lookup key
  | array items => items[index]?
  | _ => none

/-- The text a value is. -/
def text? : Node → Option String
  | string s => some s
  | _ => none

/-- The natural number below the bound that a value is. -/
def nat? (bound : Nat) : Node → Option Nat
  | integer i => if 0 ≤ i ∧ i < bound then some i.toNat else none
  | _ => none

/-- The truth value a value is. -/
def flag? : Node → Option Bool
  | boolean b => some b
  | _ => none

/-- A field of a section: the default where it is not given, and nothing where it is wrong. -/
def readField {α : Type} (node : Node) (index : Nat) (key : String) (read : Node → Option α)
    (default : α) : Option α :=
  match node.field? index key with
  | some value => read value
  | none => some default

end Node

end Toml

open Toml (Node)

/-- A section of a document, read by its own function, or the default where it is missing. -/
def readSection {α : Type} (document : Node) (name : String) (default : α)
    (read : Node → Option α) : Option α :=
  match document.field? 0 name with
  | some node => if node.isSection then read node else none
  | none => some default

/-- The agent's section. -/
def AgentSettings.read? (node : Node) : Option AgentSettings := do
  return ⟨← node.readField 0 "session_id" Node.text? default.sessionId,
    ← node.readField 1 "task_id" Node.text? default.taskId,
    ← node.readField 2 "partition_id" Node.text? default.partitionId,
    ← node.readField 3 "communication_token" Node.text? default.token⟩

/-- One past the largest number to listen at. -/
def listenBound : Nat := 0x10000

/-- One past the largest size. -/
def sizeBound : Nat := 0x10000000000000000

/-- The network's section. -/
def NetworkSettings.read? (node : Node) : Option NetworkSettings := do
  return ⟨← node.readField 0 "listen_addr" Node.text? default.listenAddress,
    ← node.readField 1 "port" (Node.nat? listenBound) default.listenNumber⟩

/-- The section on streaming. -/
def StreamingSettings.read? (node : Node) : Option StreamingSettings := do
  return ⟨← node.readField 0 "task_queue_capacity" (Node.nat? sizeBound) default.queueCapacity,
    ← node.readField 1 "max_task_payload_bytes" (Node.nat? sizeBound) default.maxPayload,
    ← node.readField 2 "resource_chunk_bytes" (Node.nat? sizeBound) default.resourceChunk⟩

/-- The section on storage. -/
def StorageSettings.read? (env : Environment) (node : Node) : Option StorageSettings := do
  return ⟨← node.readField 0 "resources_path" Node.text? (default env).resourcesPath,
    ← node.readField 1 "in_memory" Node.flag? (default env).inMemory⟩

/-- The configuration of a document. -/
def Config.ofDocument? (env : Environment) (document : Node) : Option Config := do
  return ⟨← readSection document "agent" .default AgentSettings.read?,
    ← readSection document "network" .default NetworkSettings.read?,
    ← readSection document "streaming" .default StreamingSettings.read?,
    ← readSection document "storage" (.default env) (StorageSettings.read? env)⟩

/-- The configuration that the text of a file spells. -/
def Config.parse? (env : Environment) (text : String) : Option Config :=
  Toml.parse? text >>= Config.ofDocument? env

/-- The sections of a file that spells the configuration. -/
def Config.sections (c : Config) : List Toml.Section :=
  [⟨"agent",
      [("session_id", .text c.agent.sessionId), ("task_id", .text c.agent.taskId),
        ("partition_id", .text c.agent.partitionId), ("communication_token", .text c.agent.token)]⟩,
    ⟨"network",
      [("listen_addr", .text c.network.listenAddress), ("port", .number c.network.listenNumber)]⟩,
    ⟨"streaming",
      [("task_queue_capacity", .number c.streaming.queueCapacity),
        ("max_task_payload_bytes", .number c.streaming.maxPayload),
        ("resource_chunk_bytes", .number c.streaming.resourceChunk)]⟩,
    ⟨"storage",
      [("resources_path", .text c.storage.resourcesPath), ("in_memory", .flag c.storage.inMemory)]⟩]

/-- The text of a file that spells the configuration. -/
def Config.render (c : Config) : String := String.ofList (Toml.renderSections c.sections)

/-! ## Overrides -/

/-- Drop a plus sign at the front, if there is one. -/
def dropPlus : List Char → List Char
  | '+' :: rest => rest
  | text => text

/-- The natural number below the bound that a text spells: an optional plus sign and digits. -/
def parseNat? (bound : Nat) (text : String) : Option Nat :=
  let ds := dropPlus text.toList
  let n := Toml.digitsValue 10 ds
  if ds ≠ [] ∧ ds.all Char.isDigit ∧ n < bound then some n else none

namespace Environment

/-- The variable that overrides a field, if it is a valid value, and the given value otherwise. -/
def override {α : Type} (env : Environment) (name : String) (read : String → Option α)
    (value : α) : α :=
  (env.get? name >>= read).getD value

end Environment

/-- Override what the environment says otherwise. The queue keeps at least one slot. -/
def Config.override (c : Config) (env : Environment) : Config where
  agent :=
    { sessionId := env.override "GRIDAGENT_AGENT__SESSION_ID" some c.agent.sessionId
      taskId := env.override "GRIDAGENT_AGENT__TASK_ID" some c.agent.taskId
      partitionId := env.override "GRIDAGENT_AGENT__PARTITION_ID" some c.agent.partitionId
      token := env.override "GRIDAGENT_AGENT__COMMUNICATION_TOKEN" some c.agent.token }
  network :=
    { listenAddress := env.override "GRIDAGENT_NETWORK__LISTEN_ADDR" some c.network.listenAddress
      listenNumber := env.override "GRIDAGENT_NETWORK__PORT" (parseNat? listenBound)
        c.network.listenNumber }
  streaming :=
    { queueCapacity := env.override "GRIDAGENT_STREAMING__TASK_QUEUE_CAPACITY"
        (fun t => (parseNat? sizeBound t).map (max · 1)) c.streaming.queueCapacity
      maxPayload := env.override "GRIDAGENT_STREAMING__MAX_TASK_PAYLOAD_BYTES"
        (parseNat? sizeBound) c.streaming.maxPayload
      resourceChunk := c.streaming.resourceChunk }
  storage :=
    { resourcesPath := env.override "GRIDAGENT_STORAGE__RESOURCES_PATH" some c.storage.resourcesPath
      inMemory := env.override "GRIDAGENT_STORAGE__IN_MEMORY"
        (fun t => some (t == "true" || t == "1")) c.storage.inMemory }

end Sidecar
