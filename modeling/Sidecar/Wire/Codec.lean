import Sidecar.Wire.Schema
import Sidecar.Message.Agent
import Sidecar.Message.Worker

/-!
# Messages on the wire

`Wire α` gives a type of messages its schema and the correspondence between messages and the
schema's contents. `encode` then writes a message as a text, and `decode?` reads a text that is
exactly one message. The instances below are the vocabulary of the protocol: the names of fields
and cases are what the peers match on.
-/

namespace Sidecar

open Json

/-- A type of messages with a layout on the wire. -/
class Wire (α : Type) where
  /-- The layout. -/
  schema : Schema
  /-- The content of a message. -/
  toDatum : α → Datum
  /-- The message with a content. -/
  ofDatum? : Datum → Option α

namespace Wire

variable {α : Type} [Wire α]

/-- The value that spells a message. -/
def toValue (message : α) : Value := (schema α).write (toDatum message)

/-- The message that a value spells. -/
def ofValue? (mode : Mode) (value : Value) : Option α :=
  (schema α).read? mode value >>= ofDatum?

/-- The number of levels of nesting, counted with the one that is never entered. -/
def maxDepth : Nat := 128

/-- The text of a message. -/
def encode (message : α) : Bytes := (toValue message).print

/-- The message that a text spells. -/
def decode? (text : Bytes) : Option α := parse? text >>= ofValue? (.streamed maxDepth)

end Wire

open Wire

/-! ## Lists and options of messages -/

/-- The messages with the given contents. -/
def ofData? {α : Type} [Wire α] (data : List Datum) : Option (List α) := data.mapM ofDatum?

/-- The content of an optional message. -/
def optionDatum {α : Type} [Wire α] : Option α → Datum
  | none => .none
  | some a => .some (toDatum a)

/-- The optional message with the given content. -/
def ofOption? {α : Type} [Wire α] : Datum → Option (Option α)
  | .none => some none
  | .some d => some <$> ofDatum? d
  | _ => none

/-- The content of a list of texts. -/
def textsDatum (texts : List String) : Datum := .list (texts.map .text)

/-- The list of texts with the given content. -/
def ofTexts? : Datum → Option (List String)
  | .list ds => ds.mapM fun
    | .text t => some t
    | _ => none
  | _ => none

/-! ## The parts of messages -/

/-- One past the largest 32-bit number. -/
def bound32 : Nat := 0x100000000

/-- One past the largest 64-bit number. -/
def bound64 : Nat := 0x10000000000000000

instance : Wire Chunk where
  schema := .union (.ofList [("Data", .bytes), ("DataComplete", .unit)])
  toDatum
    | .data b => .case "Data" (.bytes b)
    | .complete => .case "DataComplete" .unit
  ofDatum?
    | .case "Data" (.bytes b) => some (.data b)
    | .case "DataComplete" .unit => some .complete
    | _ => none

instance : Wire Fragment where
  schema := .record .required (.ofList [("data", .bytes), ("data_complete", .flag)])
  toDatum f := .record [.bytes f.data, .flag f.last]
  ofDatum?
    | .record [.bytes data, .flag last] => some ⟨data, last⟩
    | _ => none

instance : Wire TaskOptions where
  schema := .record .zeroed (.ofList
    [("max_duration_ms", .nat bound64), ("max_retries", .nat bound32), ("priority", .nat bound32),
      ("partition_id", .text), ("options", .dict)])
  toDatum o := .record
    [.nat o.maxDurationMs.toNat, .nat o.maxRetries.toNat, .nat o.priority.toNat,
      .text o.partitionId, .dict o.options]
  ofDatum?
    | .record [.nat duration, .nat retries, .nat priority, .text partition, .dict options] =>
      some ⟨.ofNat duration, .ofNat retries, .ofNat priority, partition, options⟩
    | _ => none

instance : Wire TaskHeader where
  schema := .record .required (.ofList
    [("id", .text), ("expected_output_keys", .list .text), ("data_dependencies", .list .text)])
  toDatum h := .record [.text h.id, textsDatum h.expectedOutputKeys, textsDatum h.dataDependencies]
  ofDatum?
    | .record [.text id, outputs, dependencies] => do
      return ⟨id, ← ofTexts? outputs, ← ofTexts? dependencies⟩
    | _ => none

instance : Wire CreatedTask where
  schema := .record .required (.ofList
    [("task_id", .text), ("expected_output_keys", .list .text), ("data_dependencies", .list .text)])
  toDatum t :=
    .record [.text t.taskId, textsDatum t.expectedOutputKeys, textsDatum t.dataDependencies]
  ofDatum?
    | .record [.text id, outputs, dependencies] => do
      return ⟨id, ← ofTexts? outputs, ← ofTexts? dependencies⟩
    | _ => none

/-! ## Creating tasks -/

instance : Wire TaskIntro where
  schema := .union (.ofList [("Header", schema TaskHeader), ("LastTask", .unit)])
  toDatum
    | .header h => .case "Header" (toDatum h)
    | .lastTask => .case "LastTask" .unit
  ofDatum?
    | .case "Header" d => .header <$> ofDatum? d
    | .case "LastTask" .unit => some .lastTask
    | _ => none

/-- The content of a case that holds nothing but options. -/
def initSchema : Schema :=
  .record .inline (.ofList [("task_options", .option (schema TaskOptions))])

instance : Wire CreateKind where
  schema := .union (.ofList
    [("InitRequest", initSchema), ("InitTask", .option (schema TaskIntro)),
      ("TaskPayload", .option (schema Chunk))])
  toDatum
    | .initRequest o => .case "InitRequest" (.record [optionDatum o])
    | .initTask i => .case "InitTask" (optionDatum i)
    | .taskPayload c => .case "TaskPayload" (optionDatum c)
  ofDatum?
    | .case "InitRequest" (.record [o]) => .initRequest <$> ofOption? o
    | .case "InitTask" d => .initTask <$> ofOption? d
    | .case "TaskPayload" d => .taskPayload <$> ofOption? d
    | _ => none

/-- A record of a token and a kind. -/
def tokenSchema (kind : Schema) : Schema :=
  .record .required (.ofList [("communication_token", .text), ("kind", kind)])

instance : Wire CreateRequest where
  schema := tokenSchema (.option (schema CreateKind))
  toDatum r := .record [.text r.token, optionDatum r.kind]
  ofDatum?
    | .record [.text token, kind] => do return ⟨token, ← ofOption? kind⟩
    | _ => none

instance : Wire CreateOutcome where
  schema := .union (.ofList
    [("Successful", .unit), ("NonSuccessfulIds", .list .text), ("Error", .text)])
  toDatum
    | .successful => .case "Successful" .unit
    | .nonSuccessfulIds ids => .case "NonSuccessfulIds" (textsDatum ids)
    | .error m => .case "Error" (.text m)
  ofDatum?
    | .case "Successful" .unit => some .successful
    | .case "NonSuccessfulIds" ids => .nonSuccessfulIds <$> ofTexts? ids
    | .case "Error" (.text m) => some (.error m)
    | _ => none

instance : Wire CreateReply where
  schema := tokenSchema (schema CreateOutcome)
  toDatum r := .record [.text r.token, toDatum r.kind]
  ofDatum?
    | .record [.text token, kind] => do return ⟨token, ← ofDatum? kind⟩
    | _ => none

/-! ## Handing in a result -/

instance : Wire ResultIntro where
  schema := .union (.ofList [("Key", .text), ("LastResult", .unit)])
  toDatum
    | .key k => .case "Key" (.text k)
    | .lastResult => .case "LastResult" .unit
  ofDatum?
    | .case "Key" (.text k) => some (.key k)
    | .case "LastResult" .unit => some .lastResult
    | _ => none

instance : Wire ResultKind where
  schema := .union (.ofList
    [("Init", .option (schema ResultIntro)), ("Data", .option (schema Chunk))])
  toDatum
    | .init i => .case "Init" (optionDatum i)
    | .data c => .case "Data" (optionDatum c)
  ofDatum?
    | .case "Init" d => .init <$> ofOption? d
    | .case "Data" d => .data <$> ofOption? d
    | _ => none

instance : Wire ResultRequest where
  schema := tokenSchema (.option (schema ResultKind))
  toDatum r := .record [.text r.token, optionDatum r.kind]
  ofDatum?
    | .record [.text token, kind] => do return ⟨token, ← ofOption? kind⟩
    | _ => none

instance : Wire ResultOutcome where
  schema := .union (.ofList [("Ok", .unit), ("Error", .text)])
  toDatum
    | .ok => .case "Ok" .unit
    | .error m => .case "Error" (.text m)
  ofDatum?
    | .case "Ok" .unit => some .ok
    | .case "Error" (.text m) => some (.error m)
    | _ => none

instance : Wire ResultReply where
  schema := tokenSchema (schema ResultOutcome)
  toDatum r := .record [.text r.token, toDatum r.kind]
  ofDatum?
    | .record [.text token, kind] => do return ⟨token, ← ofDatum? kind⟩
    | _ => none

/-! ## Fetching data -/

instance : Wire FetchRequest where
  schema := .record .required (.ofList [("communication_token", .text), ("key", .text)])
  toDatum r := .record [.text r.token, .text r.key]
  ofDatum?
    | .record [.text token, .text key] => some ⟨token, key⟩
    | _ => none

instance : Wire FetchOpening where
  schema := .union (.ofList [("Data", schema Chunk), ("Error", .text)])
  toDatum
    | .data c => .case "Data" (toDatum c)
    | .error m => .case "Error" (.text m)
  ofDatum?
    | .case "Data" d => .data <$> ofDatum? d
    | .case "Error" (.text m) => some (.error m)
    | _ => none

instance : Wire FetchKind where
  schema := .union (.ofList
    [("Init", .record .required (.ofList [("key", .text), ("payload", schema FetchOpening)])),
      ("Data", schema Chunk), ("Error", .text)])
  toDatum
    | .init key opening => .case "Init" (.record [.text key, toDatum opening])
    | .data c => .case "Data" (toDatum c)
    | .error m => .case "Error" (.text m)
  ofDatum?
    | .case "Init" (.record [.text key, opening]) => .init key <$> ofDatum? opening
    | .case "Data" d => .data <$> ofDatum? d
    | .case "Error" (.text m) => some (.error m)
    | _ => none

instance : Wire FetchReply where
  schema := tokenSchema (schema FetchKind)
  toDatum r := .record [.text r.token, toDatum r.kind]
  ofDatum?
    | .record [.text token, kind] => do return ⟨token, ← ofDatum? kind⟩
    | _ => none

/-! ## Finalizing -/

instance : Wire FinalizeRequest where
  schema := .record .required (.ofList [("communication_token", .text)])
  toDatum r := .record [.text r.token]
  ofDatum?
    | .record [.text token] => some ⟨token⟩
    | _ => none

instance : Wire FinalizeOutcome where
  schema := .union (.ofList [("Finalized", .nat bound64), ("Error", .text)])
  toDatum
    | .finalized n => .case "Finalized" (.nat n)
    | .error m => .case "Error" (.text m)
  ofDatum?
    | .case "Finalized" (.nat n) => some (.finalized n)
    | .case "Error" (.text m) => some (.error m)
    | _ => none

instance : Wire FinalizeReply where
  schema := tokenSchema (schema FinalizeOutcome)
  toDatum r := .record [.text r.token, toDatum r.kind]
  ofDatum?
    | .record [.text token, kind] => do return ⟨token, ← ofDatum? kind⟩
    | _ => none

/-! ## Calls on a connection -/

instance : Wire CallHeader where
  schema := .union (.ofList
    [("CreateTask", .unit), ("SendResult", .unit), ("GetResourceData", schema FetchRequest),
      ("GetCommonData", schema FetchRequest), ("GetDirectData", schema FetchRequest),
      ("FinalizeTaskCreation", schema FinalizeRequest)])
  toDatum
    | .createTask => .case "CreateTask" .unit
    | .sendResult => .case "SendResult" .unit
    | .getResource r => .case "GetResourceData" (toDatum r)
    | .getCommon r => .case "GetCommonData" (toDatum r)
    | .getDirect r => .case "GetDirectData" (toDatum r)
    | .finalize r => .case "FinalizeTaskCreation" (toDatum r)
  ofDatum?
    | .case "CreateTask" .unit => some .createTask
    | .case "SendResult" .unit => some .sendResult
    | .case "GetResourceData" d => .getResource <$> ofDatum? d
    | .case "GetCommonData" d => .getCommon <$> ofDatum? d
    | .case "GetDirectData" d => .getDirect <$> ofDatum? d
    | .case "FinalizeTaskCreation" d => .finalize <$> ofDatum? d
    | _ => none

instance : Wire ServerFrame where
  schema := .union (.ofList
    [("CreateTask", schema CreateReply), ("SendResult", schema ResultReply),
      ("Data", schema FetchReply), ("Finalize", schema FinalizeReply), ("Failed", .text)])
  toDatum
    | .createTask r => .case "CreateTask" (toDatum r)
    | .sendResult r => .case "SendResult" (toDatum r)
    | .data r => .case "Data" (toDatum r)
    | .finalize r => .case "Finalize" (toDatum r)
    | .failed m => .case "Failed" (.text m)
  ofDatum?
    | .case "CreateTask" d => .createTask <$> ofDatum? d
    | .case "SendResult" d => .sendResult <$> ofDatum? d
    | .case "Data" d => .data <$> ofDatum? d
    | .case "Finalize" d => .finalize <$> ofDatum? d
    | .case "Failed" (.text m) => some (.failed m)
    | _ => none

/-! ## What a worker streams back -/

instance : Wire ReplyTag where
  schema := .name (ReplyTag.all.map ReplyTag.name)
  toDatum t := .text t.name
  ofDatum?
    | .text name => ReplyTag.ofName? name
    | _ => none

instance : Wire OutputIntro where
  schema := .union (.ofList [("Error", .text), ("OutputChunk", schema Fragment)])
  toDatum
    | .error m => .case "Error" (.text m)
    | .fragment f => .case "OutputChunk" (toDatum f)
  ofDatum?
    | .case "Error" (.text m) => some (.error m)
    | .case "OutputChunk" d => .fragment <$> ofDatum? d
    | _ => none

instance : Wire OutputPart where
  schema := .union (.ofList [("Init", .option (schema OutputIntro)), ("Data", schema Fragment)])
  toDatum
    | .init i => .case "Init" (optionDatum i)
    | .data f => .case "Data" (toDatum f)
  ofDatum?
    | .case "Init" d => .init <$> ofOption? d
    | .case "Data" d => .data <$> ofDatum? d
    | _ => none

instance : Wire ResultPart where
  schema := .union (.ofList
    [("Init", .record .inline (.ofList [("key", .text), ("result_chunk", schema Fragment)])),
      ("Data", schema Fragment)])
  toDatum
    | .init key f => .case "Init" (.record [.text key, toDatum f])
    | .data f => .case "Data" (toDatum f)
  ofDatum?
    | .case "Init" (.record [.text key, f]) => .init key <$> ofDatum? f
    | .case "Data" d => .data <$> ofDatum? d
    | _ => none

instance : Wire LargeTask where
  schema := .record .required (.ofList
    [("header", schema TaskHeader), ("payload", .bytes), ("payload_complete", .flag),
      ("last_task", .flag)])
  toDatum t :=
    .record [toDatum t.header, .bytes t.payload, .flag t.payloadComplete, .flag t.lastTask]
  ofDatum?
    | .record [header, .bytes payload, .flag complete, .flag last] => do
      return ⟨← ofDatum? header, payload, complete, last⟩
    | _ => none

instance : Wire PayloadPart where
  schema := .record .required (.ofList [("data", .bytes), ("payload_complete", .flag)])
  toDatum p := .record [.bytes p.data, .flag p.complete]
  ofDatum?
    | .record [.bytes data, .flag complete] => some ⟨data, complete⟩
    | _ => none

instance : Wire LargeTaskPart where
  schema := .union (.ofList
    [("InitRequest", initSchema), ("InitTask", schema LargeTask),
      ("TaskPayload", schema PayloadPart)])
  toDatum
    | .initRequest o => .case "InitRequest" (.record [optionDatum o])
    | .initTask t => .case "InitTask" (toDatum t)
    | .taskPayload p => .case "TaskPayload" (toDatum p)
  ofDatum?
    | .case "InitRequest" (.record [o]) => .initRequest <$> ofOption? o
    | .case "InitTask" d => .initTask <$> ofDatum? d
    | .case "TaskPayload" d => .taskPayload <$> ofDatum? d
    | _ => none

instance : Wire SmallTask where
  schema := .record .required (.ofList [("header", schema TaskHeader), ("payload", .bytes)])
  toDatum t := .record [toDatum t.header, .bytes t.payload]
  ofDatum?
    | .record [header, .bytes payload] => do return ⟨← ofDatum? header, payload⟩
    | _ => none

instance : Wire SmallTaskBatch where
  schema := .record .required (.ofList
    [("task_options", .option (schema TaskOptions)), ("tasks", .list (schema SmallTask))])
  toDatum b := .record [optionDatum b.options, .list (b.tasks.map toDatum)]
  ofDatum?
    | .record [options, .list tasks] => do return ⟨← ofOption? options, ← ofData? tasks⟩
    | _ => none

instance : Wire ReplyKind where
  schema := .union (.ofList
    [("Output", .option (schema OutputPart)), ("Result", .option (schema ResultPart)),
      ("CreateLargeTask", .option (schema LargeTaskPart)), ("Resource", .text),
      ("CommonData", .text), ("DirectData", .text), ("CreateSmallTask", schema SmallTaskBatch)])
  toDatum
    | .output p => .case "Output" (optionDatum p)
    | .result p => .case "Result" (optionDatum p)
    | .createLargeTask p => .case "CreateLargeTask" (optionDatum p)
    | .resource k => .case "Resource" (.text k)
    | .commonData k => .case "CommonData" (.text k)
    | .directData k => .case "DirectData" (.text k)
    | .createSmallTask b => .case "CreateSmallTask" (toDatum b)
  ofDatum?
    | .case "Output" d => .output <$> ofOption? d
    | .case "Result" d => .result <$> ofOption? d
    | .case "CreateLargeTask" d => .createLargeTask <$> ofOption? d
    | .case "Resource" (.text k) => some (.resource k)
    | .case "CommonData" (.text k) => some (.commonData k)
    | .case "DirectData" (.text k) => some (.directData k)
    | .case "CreateSmallTask" d => .createSmallTask <$> ofDatum? d
    | _ => none

instance : Wire WorkerReply where
  schema := .record .required (.ofList
    [("request_id", .text), ("communication_token", .text), ("kind", .option (schema ReplyKind))])
  toDatum r := .record [.text r.requestId, .text r.token, optionDatum r.kind]
  ofDatum?
    | .record [.text id, .text token, kind] => do return ⟨id, token, ← ofOption? kind⟩
    | _ => none

instance : Wire KeyedKind where
  schema := .union (.ofList
    [("Init", .record .inline (.ofList [("key", .text), ("chunk", schema Fragment)])),
      ("Data", schema Fragment)])
  toDatum
    | .init key f => .case "Init" (.record [.text key, toDatum f])
    | .data f => .case "Data" (toDatum f)
  ofDatum?
    | .case "Init" (.record [.text key, f]) => .init key <$> ofDatum? f
    | .case "Data" d => .data <$> ofDatum? d
    | _ => none

instance : Wire KeyedReply where
  schema := .record .required (.ofList [("reply_id", .text), ("kind", schema KeyedKind)])
  toDatum r := .record [.text r.replyId, toDatum r.kind]
  ofDatum?
    | .record [.text id, kind] => do return ⟨id, ← ofDatum? kind⟩
    | _ => none

end Sidecar
