import Sidecar.Bytes
import Sidecar.Dict

/-!
# The parts messages are made of

Workers, agents and the scheduler behind them exchange payloads in pieces and describe tasks to
each other. This module has those pieces: a `Chunk` of a payload on the agent's side, where the end
is a message of its own; a `Fragment` on the worker's side, where the end rides on the last piece;
and the description of a task to be created (`TaskHeader`, `TaskOptions`) or already created
(`CreatedTask`).

A union whose case may be left unset is an `Option` of an inductive type. Whoever reads the message
has to refuse the unset case.
-/

namespace Sidecar

/-- A piece of a payload, or the mark that it is over. -/
inductive Chunk where
  | data (bytes : Bytes)
  | complete
deriving DecidableEq, Repr, Inhabited

/-- The name of the case. -/
def Chunk.caseName : Chunk → String
  | data _ => "Data"
  | complete => "DataComplete"

/-- A piece of a payload that says whether it is the last one. -/
structure Fragment where
  data : Bytes
  last : Bool
deriving DecidableEq, Repr, Inhabited

/-- Scheduling options of a batch of tasks. -/
structure TaskOptions where
  maxDurationMs : UInt64
  maxRetries : UInt32
  priority : UInt32
  partitionId : String
  options : Dict String
deriving DecidableEq

namespace TaskOptions

/-- The options where nothing is asked for. -/
def default : TaskOptions := ⟨0, 0, 0, "", ∅⟩

instance : Inhabited TaskOptions := ⟨default⟩

end TaskOptions

/-- The announcement of a task. Its payload follows in chunks. -/
structure TaskHeader where
  id : String
  expectedOutputKeys : List String
  dataDependencies : List String
deriving DecidableEq, Repr, Inhabited

/-- A task that was accepted. -/
structure CreatedTask where
  taskId : String
  expectedOutputKeys : List String
  dataDependencies : List String
deriving DecidableEq, Repr, Inhabited

/-- The descriptor of an announced task, once it is accepted. -/
def TaskHeader.created (header : TaskHeader) : CreatedTask :=
  ⟨header.id, header.expectedOutputKeys, header.dataDependencies⟩

end Sidecar
