import Sidecar.Wire.Codec
import Sidecar.Proofs.Wire.Reading

/-!
# Messages are read as they were written

A message is faithful if its schema lays it out and it is recovered from its content
(`Wire.Faithful`). Each message of the protocol is, from its parts upwards. A faithful message is
read back from every text that spells it, so from the one the library writes, and no other message
is written the same way (`Wire.RoundTrips`).

Counts are the only numbers whose type does not bound them: a reply is in range if its count has 64
bits.
-/

namespace Sidecar

open Json Wire

namespace Wire

variable {α : Type} [Wire α]

/-! ## Faithful messages -/

/-- The message is laid out by its schema and recovered from its content. -/
structure Faithful (m : α) : Prop where
  fits : (schema α).Fits (toDatum m)
  recovered : ofDatum? (toDatum m) = some m

/-- An option of faithful messages is laid out. -/
theorem fits_optionDatum (h : ∀ m : α, Faithful m) :
    ∀ o : Option α, (schema α).option.Fits (optionDatum o)
  | none => trivial
  | some m => (h m).fits

/-- An option of faithful messages is recovered. -/
theorem ofOption?_optionDatum (h : ∀ m : α, Faithful m) :
    ∀ o : Option α, ofOption? (optionDatum o) = some o
  | none => rfl
  | some m => congrArg (some <$> ·) (h m).recovered

/-- A list of faithful messages is recovered. -/
theorem ofData?_map_toDatum (h : ∀ m : α, Faithful m) (ms : List α) :
    ofData? (ms.map toDatum) = some ms := by
  have hms := mapM_eq_some (f := ofDatum?) (g := toDatum) (k := id) (l := ms)
    fun m _ => (h m).recovered
  rw [ofData?, hms, List.map_id]

/-- A list of texts is laid out. -/
theorem fits_textsDatum (ts : List String) : (Schema.list .text).Fits (textsDatum ts) := by
  intro d hd
  obtain ⟨t, -, rfl⟩ := List.mem_map.1 hd
  trivial

/-- A list of texts is recovered. -/
theorem ofTexts?_textsDatum (ts : List String) : ofTexts? (textsDatum ts) = some ts := by
  have hts : ofTexts? (textsDatum ts) = some (ts.map id) := mapM_eq_some fun _ _ => rfl
  rw [hts, List.map_id]

/-! ## Reading messages -/

/-- A faithful message is read from every text that spells it. -/
theorem Faithful.decode?_eq {m : α} (h : Faithful m) (hwf : (schema α).wellFormed = true)
    (hdepth : (schema α).depth < maxDepth) {v : Value} (hv : (schema α).Spells (toDatum m) v)
    {text : Bytes} (htext : Spaced v.tokens text) : decode? text = some m := by
  have hparse : parse? text = some v := parse?_of_spaced (hv.plain hwf).written htext
  have hread : (schema α).read? (.streamed maxDepth) v = some (toDatum m) :=
    Schema.read?_of_spells hwf hdepth hv
  rw [decode?, hparse, Option.bind_eq_bind, Option.bind_some, ofValue?, hread, Option.bind_eq_bind,
    Option.bind_some, h.recovered]

/-- A message is written as a text that spells it. -/
theorem Faithful.spaced_encode {m : α} (h : Faithful m) :
    ∃ v, (schema α).Spells (toDatum m) v ∧ Spaced v.tokens (encode m) := by
  refine ⟨toValue m, (schema α).spells_write _ h.fits, ?_⟩
  rw [encode, Value.print_eq_flatMap]
  exact spaced_flatMap_print _

/-- The messages in a range are read as they were written, and also from any other text that spells
them: its members in another order, unknown members and white space among them. So no two messages
are written the same way. -/
structure RoundTrips (α : Type) [Wire α] (InRange : α → Prop) : Prop where
  decode_encode : ∀ m, InRange m → decode? (encode m) = some m
  decode_spelled : ∀ m v text, InRange m → (schema α).Spells (toDatum m) v →
    Spaced v.tokens text → decode? text = some m
  encode_injective : ∀ m m', InRange m → InRange m' → encode m = encode m' → m = m'

/-- Faithful messages are read as they were written, under a schema that tells contents apart and
is not too deep. -/
theorem RoundTrips.of_faithful {InRange : α → Prop} (h : ∀ m, InRange m → Faithful m)
    (hwf : (schema α).wellFormed = true) (hdepth : (schema α).depth < maxDepth) :
    RoundTrips α InRange := by
  have hspelled : ∀ m v text, InRange m → (schema α).Spells (toDatum m) v →
      Spaced v.tokens text → decode? text = some m :=
    fun m v text hm hv htext => (h m hm).decode?_eq hwf hdepth hv htext
  have hencode : ∀ m, InRange m → decode? (encode m) = some m := by
    intro m hm
    obtain ⟨v, hv, htext⟩ := (h m hm).spaced_encode
    exact hspelled m v _ hm hv htext
  refine ⟨hencode, hspelled, fun m m' hm hm' heq => ?_⟩
  have hsome : some m = some m' := by rw [← hencode m hm, heq, hencode m' hm']
  exact Option.some.inj hsome

/-- All messages of a type. -/
def Any (α : Type) : α → Prop := fun _ => True

end Wire

/-! ## The parts of messages -/

theorem Chunk.faithful : ∀ c : Chunk, Faithful c
  | .data _ => ⟨trivial, rfl⟩
  | .complete => ⟨trivial, rfl⟩

theorem Chunk.roundTrips : RoundTrips Chunk (Any Chunk) :=
  .of_faithful (fun m _ => m.faithful) (by decide) (by decide)

theorem Fragment.faithful (f : Fragment) : Faithful f := ⟨⟨trivial, trivial, trivial⟩, rfl⟩

theorem Fragment.roundTrips : RoundTrips Fragment (Any Fragment) :=
  .of_faithful (fun m _ => m.faithful) (by decide) (by decide)

theorem TaskOptions.faithful (o : TaskOptions) : Faithful o where
  fits := ⟨o.maxDurationMs.toNat_lt, o.maxRetries.toNat_lt, o.priority.toNat_lt, trivial, trivial,
    trivial⟩
  recovered := by simp [toDatum, ofDatum?]

theorem TaskOptions.roundTrips : RoundTrips TaskOptions (Any TaskOptions) :=
  .of_faithful (fun m _ => m.faithful) (by decide) (by decide)

theorem TaskHeader.faithful (h : TaskHeader) : Faithful h where
  fits := ⟨trivial, fits_textsDatum _, fits_textsDatum _, trivial⟩
  recovered := by simp [toDatum, ofDatum?, ofTexts?_textsDatum]

theorem TaskHeader.roundTrips : RoundTrips TaskHeader (Any TaskHeader) :=
  .of_faithful (fun m _ => m.faithful) (by decide) (by decide)

theorem CreatedTask.faithful (t : CreatedTask) : Faithful t where
  fits := ⟨trivial, fits_textsDatum _, fits_textsDatum _, trivial⟩
  recovered := by simp [toDatum, ofDatum?, ofTexts?_textsDatum]

theorem CreatedTask.roundTrips : RoundTrips CreatedTask (Any CreatedTask) :=
  .of_faithful (fun m _ => m.faithful) (by decide) (by decide)

/-! ## Creating tasks -/

theorem TaskIntro.faithful : ∀ i : TaskIntro, Faithful i
  | .header h => ⟨h.faithful.fits, congrArg (TaskIntro.header <$> ·) h.faithful.recovered⟩
  | .lastTask => ⟨trivial, rfl⟩

theorem CreateKind.faithful : ∀ k : CreateKind, Faithful k
  | .initRequest o => ⟨⟨fits_optionDatum TaskOptions.faithful o, trivial⟩,
      congrArg (CreateKind.initRequest <$> ·) (ofOption?_optionDatum TaskOptions.faithful o)⟩
  | .initTask i => ⟨fits_optionDatum TaskIntro.faithful i,
      congrArg (CreateKind.initTask <$> ·) (ofOption?_optionDatum TaskIntro.faithful i)⟩
  | .taskPayload c => ⟨fits_optionDatum Chunk.faithful c,
      congrArg (CreateKind.taskPayload <$> ·) (ofOption?_optionDatum Chunk.faithful c)⟩

theorem CreateRequest.faithful (r : CreateRequest) : Faithful r where
  fits := ⟨trivial, fits_optionDatum CreateKind.faithful r.kind, trivial⟩
  recovered := congrArg (·.bind fun kind => some (CreateRequest.mk r.token kind))
    (ofOption?_optionDatum CreateKind.faithful r.kind)

theorem CreateRequest.roundTrips : RoundTrips CreateRequest (Any CreateRequest) :=
  .of_faithful (fun m _ => m.faithful) (by decide) (by decide)

theorem CreateOutcome.faithful : ∀ o : CreateOutcome, Faithful o
  | .successful => ⟨trivial, rfl⟩
  | .nonSuccessfulIds ids => ⟨fits_textsDatum ids,
      congrArg (CreateOutcome.nonSuccessfulIds <$> ·) (ofTexts?_textsDatum ids)⟩
  | .error _ => ⟨trivial, rfl⟩

theorem CreateReply.faithful (r : CreateReply) : Faithful r where
  fits := ⟨trivial, r.kind.faithful.fits, trivial⟩
  recovered := congrArg (·.bind fun kind => some (CreateReply.mk r.token kind))
    r.kind.faithful.recovered

theorem CreateReply.roundTrips : RoundTrips CreateReply (Any CreateReply) :=
  .of_faithful (fun m _ => m.faithful) (by decide) (by decide)

/-! ## Handing in a result -/

theorem ResultIntro.faithful : ∀ i : ResultIntro, Faithful i
  | .key _ => ⟨trivial, rfl⟩
  | .lastResult => ⟨trivial, rfl⟩

theorem ResultKind.faithful : ∀ k : ResultKind, Faithful k
  | .init i => ⟨fits_optionDatum ResultIntro.faithful i,
      congrArg (ResultKind.init <$> ·) (ofOption?_optionDatum ResultIntro.faithful i)⟩
  | .data c => ⟨fits_optionDatum Chunk.faithful c,
      congrArg (ResultKind.data <$> ·) (ofOption?_optionDatum Chunk.faithful c)⟩

theorem ResultRequest.faithful (r : ResultRequest) : Faithful r where
  fits := ⟨trivial, fits_optionDatum ResultKind.faithful r.kind, trivial⟩
  recovered := congrArg (·.bind fun kind => some (ResultRequest.mk r.token kind))
    (ofOption?_optionDatum ResultKind.faithful r.kind)

theorem ResultRequest.roundTrips : RoundTrips ResultRequest (Any ResultRequest) :=
  .of_faithful (fun m _ => m.faithful) (by decide) (by decide)

theorem ResultOutcome.faithful : ∀ o : ResultOutcome, Faithful o
  | .ok => ⟨trivial, rfl⟩
  | .error _ => ⟨trivial, rfl⟩

theorem ResultReply.faithful (r : ResultReply) : Faithful r where
  fits := ⟨trivial, r.kind.faithful.fits, trivial⟩
  recovered := congrArg (·.bind fun kind => some (ResultReply.mk r.token kind))
    r.kind.faithful.recovered

theorem ResultReply.roundTrips : RoundTrips ResultReply (Any ResultReply) :=
  .of_faithful (fun m _ => m.faithful) (by decide) (by decide)

/-! ## Fetching data -/

theorem FetchRequest.faithful (r : FetchRequest) : Faithful r := ⟨⟨trivial, trivial, trivial⟩, rfl⟩

theorem FetchRequest.roundTrips : RoundTrips FetchRequest (Any FetchRequest) :=
  .of_faithful (fun m _ => m.faithful) (by decide) (by decide)

theorem FetchOpening.faithful : ∀ o : FetchOpening, Faithful o
  | .data c => ⟨c.faithful.fits, congrArg (FetchOpening.data <$> ·) c.faithful.recovered⟩
  | .error _ => ⟨trivial, rfl⟩

theorem FetchKind.faithful : ∀ k : FetchKind, Faithful k
  | .init key o => ⟨⟨trivial, o.faithful.fits, trivial⟩,
      congrArg (FetchKind.init key <$> ·) o.faithful.recovered⟩
  | .data c => ⟨c.faithful.fits, congrArg (FetchKind.data <$> ·) c.faithful.recovered⟩
  | .error _ => ⟨trivial, rfl⟩

theorem FetchReply.faithful (r : FetchReply) : Faithful r where
  fits := ⟨trivial, r.kind.faithful.fits, trivial⟩
  recovered := congrArg (·.bind fun kind => some (FetchReply.mk r.token kind))
    r.kind.faithful.recovered

theorem FetchReply.roundTrips : RoundTrips FetchReply (Any FetchReply) :=
  .of_faithful (fun m _ => m.faithful) (by decide) (by decide)

/-! ## Finalizing -/

theorem FinalizeRequest.faithful (r : FinalizeRequest) : Faithful r := ⟨⟨trivial, trivial⟩, rfl⟩

theorem FinalizeRequest.roundTrips : RoundTrips FinalizeRequest (Any FinalizeRequest) :=
  .of_faithful (fun m _ => m.faithful) (by decide) (by decide)

/-- The count has 64 bits. -/
def FinalizeOutcome.InRange : FinalizeOutcome → Prop
  | finalized count => count < bound64
  | error _ => True

theorem FinalizeOutcome.faithful : ∀ o : FinalizeOutcome, o.InRange → Faithful o
  | .finalized _, h => ⟨h, rfl⟩
  | .error _, _ => ⟨trivial, rfl⟩

theorem FinalizeReply.faithful (r : FinalizeReply) (h : r.kind.InRange) : Faithful r where
  fits := ⟨trivial, (r.kind.faithful h).fits, trivial⟩
  recovered := congrArg (·.bind fun kind => some (FinalizeReply.mk r.token kind))
    (r.kind.faithful h).recovered

theorem FinalizeReply.roundTrips : RoundTrips FinalizeReply (·.kind.InRange) :=
  .of_faithful FinalizeReply.faithful (by decide) (by decide)

/-! ## Calls on a connection -/

theorem CallHeader.faithful : ∀ h : CallHeader, Faithful h
  | .createTask => ⟨trivial, rfl⟩
  | .sendResult => ⟨trivial, rfl⟩
  | .getResource r => ⟨r.faithful.fits,
      congrArg (CallHeader.getResource <$> ·) r.faithful.recovered⟩
  | .getCommon r => ⟨r.faithful.fits, congrArg (CallHeader.getCommon <$> ·) r.faithful.recovered⟩
  | .getDirect r => ⟨r.faithful.fits, congrArg (CallHeader.getDirect <$> ·) r.faithful.recovered⟩
  | .finalize r => ⟨r.faithful.fits, congrArg (CallHeader.finalize <$> ·) r.faithful.recovered⟩

theorem CallHeader.roundTrips : RoundTrips CallHeader (Any CallHeader) :=
  .of_faithful (fun m _ => m.faithful) (by decide) (by decide)

/-- A count it reports has 64 bits. -/
def ServerFrame.InRange : ServerFrame → Prop
  | finalize reply => reply.kind.InRange
  | _ => True

theorem ServerFrame.faithful : ∀ f : ServerFrame, f.InRange → Faithful f
  | .createTask r, _ =>
    ⟨r.faithful.fits, congrArg (ServerFrame.createTask <$> ·) r.faithful.recovered⟩
  | .sendResult r, _ =>
    ⟨r.faithful.fits, congrArg (ServerFrame.sendResult <$> ·) r.faithful.recovered⟩
  | .data r, _ => ⟨r.faithful.fits, congrArg (ServerFrame.data <$> ·) r.faithful.recovered⟩
  | .finalize r, h =>
    ⟨(r.faithful h).fits, congrArg (ServerFrame.finalize <$> ·) (r.faithful h).recovered⟩
  | .failed _, _ => ⟨trivial, rfl⟩

theorem ServerFrame.roundTrips : RoundTrips ServerFrame ServerFrame.InRange :=
  .of_faithful ServerFrame.faithful (by decide) (by decide)

/-! ## What a worker streams back -/

/-- A tag is among all tags, and has a name of its own. -/
theorem ReplyTag.faithful (t : ReplyTag) : Faithful t where
  fits := List.mem_map_of_mem (by cases t <;> decide)
  recovered := by cases t <;> decide

theorem ReplyTag.roundTrips : RoundTrips ReplyTag (Any ReplyTag) :=
  .of_faithful (fun m _ => m.faithful) (by decide) (by decide)

theorem OutputIntro.faithful : ∀ i : OutputIntro, Faithful i
  | .error _ => ⟨trivial, rfl⟩
  | .fragment f => ⟨f.faithful.fits, congrArg (OutputIntro.fragment <$> ·) f.faithful.recovered⟩

theorem OutputPart.faithful : ∀ p : OutputPart, Faithful p
  | .init i => ⟨fits_optionDatum OutputIntro.faithful i,
      congrArg (OutputPart.init <$> ·) (ofOption?_optionDatum OutputIntro.faithful i)⟩
  | .data f => ⟨f.faithful.fits, congrArg (OutputPart.data <$> ·) f.faithful.recovered⟩

theorem ResultPart.faithful : ∀ p : ResultPart, Faithful p
  | .init key f => ⟨⟨trivial, f.faithful.fits, trivial⟩,
      congrArg (ResultPart.init key <$> ·) f.faithful.recovered⟩
  | .data f => ⟨f.faithful.fits, congrArg (ResultPart.data <$> ·) f.faithful.recovered⟩

theorem LargeTask.faithful (t : LargeTask) : Faithful t where
  fits := ⟨t.header.faithful.fits, trivial, trivial, trivial, trivial⟩
  recovered := congrArg (·.bind fun header =>
    some (LargeTask.mk header t.payload t.payloadComplete t.lastTask)) t.header.faithful.recovered

theorem PayloadPart.faithful (p : PayloadPart) : Faithful p := ⟨⟨trivial, trivial, trivial⟩, rfl⟩

theorem LargeTaskPart.faithful : ∀ p : LargeTaskPart, Faithful p
  | .initRequest o => ⟨⟨fits_optionDatum TaskOptions.faithful o, trivial⟩,
      congrArg (LargeTaskPart.initRequest <$> ·) (ofOption?_optionDatum TaskOptions.faithful o)⟩
  | .initTask t => ⟨t.faithful.fits, congrArg (LargeTaskPart.initTask <$> ·) t.faithful.recovered⟩
  | .taskPayload p =>
    ⟨p.faithful.fits, congrArg (LargeTaskPart.taskPayload <$> ·) p.faithful.recovered⟩

theorem SmallTask.faithful (t : SmallTask) : Faithful t where
  fits := ⟨t.header.faithful.fits, trivial, trivial⟩
  recovered := congrArg (·.bind fun header => some (SmallTask.mk header t.payload))
    t.header.faithful.recovered

theorem SmallTaskBatch.faithful (b : SmallTaskBatch) : Faithful b where
  fits := by
    refine ⟨fits_optionDatum TaskOptions.faithful b.options, fun d hd => ?_, trivial⟩
    obtain ⟨t, -, rfl⟩ := List.mem_map.1 hd
    exact t.faithful.fits
  recovered := by
    show (ofOption? (optionDatum b.options)).bind (fun options =>
      (ofData? (b.tasks.map toDatum)).bind fun tasks => some ⟨options, tasks⟩) = some b
    rw [ofOption?_optionDatum TaskOptions.faithful, Option.bind_some,
      ofData?_map_toDatum SmallTask.faithful, Option.bind_some]

theorem ReplyKind.faithful : ∀ k : ReplyKind, Faithful k
  | .output p => ⟨fits_optionDatum OutputPart.faithful p,
      congrArg (ReplyKind.output <$> ·) (ofOption?_optionDatum OutputPart.faithful p)⟩
  | .result p => ⟨fits_optionDatum ResultPart.faithful p,
      congrArg (ReplyKind.result <$> ·) (ofOption?_optionDatum ResultPart.faithful p)⟩
  | .createLargeTask p => ⟨fits_optionDatum LargeTaskPart.faithful p,
      congrArg (ReplyKind.createLargeTask <$> ·) (ofOption?_optionDatum LargeTaskPart.faithful p)⟩
  | .resource _ | .commonData _ | .directData _ => ⟨trivial, rfl⟩
  | .createSmallTask b =>
    ⟨b.faithful.fits, congrArg (ReplyKind.createSmallTask <$> ·) b.faithful.recovered⟩

theorem WorkerReply.faithful (r : WorkerReply) : Faithful r where
  fits := ⟨trivial, trivial, fits_optionDatum ReplyKind.faithful r.kind, trivial⟩
  recovered := congrArg (·.bind fun kind => some (WorkerReply.mk r.requestId r.token kind))
    (ofOption?_optionDatum ReplyKind.faithful r.kind)

theorem WorkerReply.roundTrips : RoundTrips WorkerReply (Any WorkerReply) :=
  .of_faithful (fun m _ => m.faithful) (by decide) (by decide)

theorem KeyedKind.faithful : ∀ k : KeyedKind, Faithful k
  | .init key f => ⟨⟨trivial, f.faithful.fits, trivial⟩,
      congrArg (KeyedKind.init key <$> ·) f.faithful.recovered⟩
  | .data f => ⟨f.faithful.fits, congrArg (KeyedKind.data <$> ·) f.faithful.recovered⟩

theorem KeyedReply.faithful (r : KeyedReply) : Faithful r where
  fits := ⟨trivial, r.kind.faithful.fits, trivial⟩
  recovered := congrArg (·.bind fun kind => some (KeyedReply.mk r.replyId kind))
    r.kind.faithful.recovered

theorem KeyedReply.roundTrips : RoundTrips KeyedReply (Any KeyedReply) :=
  .of_faithful (fun m _ => m.faithful) (by decide) (by decide)

/-! ## All messages -/

namespace Wire

/-- Each type of messages is read as it was written, whatever texts, bytes, options and numbers the
messages hold. -/
theorem roundTrips_messages :
    (RoundTrips CreateRequest (Any _) ∧ RoundTrips CreateReply (Any _) ∧
      RoundTrips ResultRequest (Any _) ∧ RoundTrips ResultReply (Any _) ∧
      RoundTrips FetchRequest (Any _) ∧ RoundTrips FetchReply (Any _) ∧
      RoundTrips FinalizeRequest (Any _) ∧ RoundTrips FinalizeReply (·.kind.InRange)) ∧
    (RoundTrips CallHeader (Any _) ∧ RoundTrips ServerFrame ServerFrame.InRange) ∧
    (RoundTrips WorkerReply (Any _) ∧ RoundTrips ReplyTag (Any _) ∧
      RoundTrips KeyedReply (Any _)) ∧
    RoundTrips TaskOptions (Any _) ∧ RoundTrips TaskHeader (Any _) ∧
      RoundTrips CreatedTask (Any _) ∧ RoundTrips Chunk (Any _) ∧ RoundTrips Fragment (Any _) :=
  have calls := ⟨CreateRequest.roundTrips, CreateReply.roundTrips, ResultRequest.roundTrips,
    ResultReply.roundTrips, FetchRequest.roundTrips, FetchReply.roundTrips,
    FinalizeRequest.roundTrips, FinalizeReply.roundTrips⟩
  have frames := ⟨CallHeader.roundTrips, ServerFrame.roundTrips⟩
  have worker := ⟨WorkerReply.roundTrips, ReplyTag.roundTrips, KeyedReply.roundTrips⟩
  ⟨calls, frames, worker, TaskOptions.roundTrips, TaskHeader.roundTrips, CreatedTask.roundTrips,
    Chunk.roundTrips, Fragment.roundTrips⟩

/-- The largest count is read as it was written. -/
theorem decode?_encode_largest_count :
    bound64 - 1 < bound64 ∧
      decode? (encode (FinalizeReply.mk "" (.finalized (bound64 - 1)))) =
        some (FinalizeReply.mk "" (.finalized (bound64 - 1))) :=
  have hrange : bound64 - 1 < bound64 := by decide
  ⟨hrange, roundTrips_messages.1.2.2.2.2.2.2.2.decode_encode _ hrange⟩

end Wire

end Sidecar
