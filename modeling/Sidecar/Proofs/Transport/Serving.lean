import Sidecar.Transport.Connection
import Sidecar.Proofs.Session.Resting
import Sidecar.Proofs.Transport.Framing
import Sidecar.Proofs.Wire.RoundTrip

/-!
# A connection is served as the call it carries

The frames after the header of a streaming call are the stream of that call: a frame that is no
request stands for a failure of the transport (`Connection.item`). What is written to a connection
is one frame, and reading it gives the outcome that the call has in process, on that stream and with
nothing between it and its worker (`Connection.serve_agrees_with_call`).
-/

namespace Sidecar

open Wire

/-- What serves connections, after a call has run. -/
def Host.after (host : Host) (session : Session) : Host :=
  { host with agent := session.agent, backend := session.backend }

namespace Connection

/-! ## The stream in the frames -/

/-- What a frame brings: a request, or a failure of the transport. -/
def item {μ : Type} [Wire μ] (body : Bytes) : Except Cause μ :=
  match decode? body with
  | some request => .ok request
  | none => .error malformedFrame

/-- What a stream that is over brings after its frames. -/
def lastItems {μ : Type} (tail : Frame.Tail) : List (Except Cause μ) :=
  if tail = .broken then [.error unreadableFrame] else []

theorem arrival_eq_ofItem {μ : Type} [Wire μ] (body : Bytes) :
    (arrival body : Arrival μ) = .ofItem (item body) := by
  unfold arrival item
  cases (decode? body : Option μ) <;> rfl

theorem map_arrival_eq {μ : Type} [Wire μ] (bodies : List Bytes) :
    (bodies.map arrival : List (Arrival μ)) = (bodies.map item).map .ofItem := by
  rw [List.map_map]
  exact List.map_congr_left fun body _ => arrival_eq_ofItem body

/-- The request stream of a connection that is closed has ended. -/
theorem inbox_eq {μ : Type} [Wire μ] (bodies : List Bytes) {tail : Frame.Tail}
    (h : tail ≠ .waiting) :
    (inbox bodies tail : Inbox μ) = ⟨(bodies.map item ++ lastItems tail).map .ofItem, true⟩ := by
  cases tail with
  | waiting => exact absurd rfl h
  | ended => simp [inbox, lastItems, map_arrival_eq]
  | broken => simp [inbox, lastItems, map_arrival_eq, Arrival.ofItem]

/-- Frames that were written bring what they were written from. -/
theorem map_item_encode {μ : Type} [Wire μ] (h : RoundTrips μ (Any μ)) (requests : List μ) :
    (requests.map encode).map item = requests.map Except.ok := by
  rw [List.map_map]
  refine List.map_congr_left fun request _ => ?_
  simp [item, h.decode_encode request trivial]

theorem map_arrival_encode {μ : Type} [Wire μ] (h : RoundTrips μ (Any μ)) (requests : List μ) :
    (requests.map encode).map arrival = requests.map Arrival.message := by
  rw [map_arrival_eq, map_item_encode h, List.map_map]
  rfl

/-- The script of the call that a header names and the frames after it bring, if it is a streaming
call. -/
def script? (header : CallHeader) (bodies : List Bytes) (tail : Frame.Tail) : Option Script :=
  match header with
  | .createTask => some (.create (bodies.map item ++ lastItems tail))
  | .sendResult => some (.result (bodies.map item ++ lastItems tail))
  | _ => none

/-! ## What is written -/

/-- The report of a streaming call is read as it was written. -/
theorem decode?_encode_report (outcome : CallResult) :
    decode? (encode (report outcome)) = some (report outcome) := by
  have hrange : (report outcome).InRange := by
    rcases outcome with (_ | _) | (_ | _) <;> trivial
  exact ServerFrame.roundTrips.decode_encode _ hrange

/-- Frames that fit come out of the connection as they were written. -/
theorem frames_output {frames : List ServerFrame} (h : ∀ f ∈ frames, fits f = true) :
    Frame.frames true (output frames) = (frames.map encode, .ended) := by
  have hbodies : ∀ b ∈ frames.map encode, b.length ≤ Frame.maxLength := by
    intro b hb
    obtain ⟨f, hf, rfl⟩ := List.mem_map.1 hb
    exact of_decide_eq_true (h f hf)
  have houtput : output frames = (frames.map encode).flatMap Frame.encode := by
    simp [output, List.flatMap_map]
  rw [houtput, Frame.frames_flatMap_encode hbodies]
  rfl

/-- A single frame is written if it fits. -/
theorem write_singleton (frame : ServerFrame) (served : Served) :
    write [frame] served = if fits frame then ([frame], served) else ([], .frameTooLong) := by
  cases h : fits frame <;> simp [write, h]

/-! ## Serving a streaming call -/

/-- A streaming call on a connection that is closed plays its script to the end. -/
theorem serveHeader_of_script {header : CallHeader} {bodies : List Bytes} {tail : Frame.Tail}
    (htail : tail ≠ .waiting) {script : Script} (hscript : script? header bodies tail = some script)
    (agent : Agent) (store : Store) (library : Library) :
    ∃ outcome, (script.alone agent store).outcome? = some outcome ∧
      serveHeader ⟨agent, .ofStore store, library⟩ .closed header bodies tail =
        ([report outcome], .ok,
          Host.after ⟨agent, .ofStore store, library⟩ (script.alone agent store)) := by
  obtain ⟨outcome, houtcome⟩ := script.exists_outcome_ending agent store
  rw [← Script.alone_eq_ending] at houtcome
  refine ⟨outcome, houtcome, ?_⟩
  cases header with
  | createTask =>
    cases hscript
    have hsession : (Session.alone agent (.ofStore store)
        (.create { CreateCall.start with inbox := inbox bodies tail })).run =
          Script.alone agent store (.create (bodies.map item ++ lastItems tail)) := by
      rw [inbox_eq bodies htail]
      rfl
    simp only [serveHeader, serveCall, hsession, reduceCtorEq, if_false, houtcome]
    rfl
  | sendResult =>
    cases hscript
    have hsession : (Session.alone agent (.ofStore store)
        (.result { ResultCall.start with inbox := inbox bodies tail })).run =
          Script.alone agent store (.result (bodies.map item ++ lastItems tail)) := by
      rw [inbox_eq bodies htail]
      rfl
    simp only [serveHeader, serveCall, hsession, reduceCtorEq, if_false, houtcome]
    rfl
  | getResource | getCommon | getDirect | finalize => cases hscript

/-- A connection whose first frame is the header of a streaming call gets one frame, if that
fits. -/
theorem serve_of_script {bytes first : Bytes} {bodies : List Bytes} {tail : Frame.Tail}
    (hframes : Frame.frames true bytes = (first :: bodies, tail)) (htail : tail ≠ .waiting)
    {header : CallHeader} (hheader : decode? first = some header) {script : Script}
    (hscript : script? header bodies tail = some script)
    (agent : Agent) (store : Store) (library : Library) :
    let host : Host := ⟨agent, .ofStore store, library⟩
    ∃ outcome, (script.alone agent store).outcome? = some outcome ∧
      serve host .closed bytes =
        ((if fits (report outcome) then [report outcome] else []),
          (if fits (report outcome) then .ok else .frameTooLong),
          host.after (script.alone agent store)) := by
  intro host
  obtain ⟨outcome, houtcome, hserve⟩ := serveHeader_of_script htail hscript agent store library
  refine ⟨outcome, houtcome, ?_⟩
  have hserveFrames : serveFrames host .closed (first :: bodies, tail) =
      ([report outcome], .ok, host.after (script.alone agent store)) := by
    rw [serveFrames, hheader]
    exact hserve
  rw [serve, decide_eq_true rfl, hframes, hserveFrames]
  simp only [write_singleton, reduceCtorEq, if_false]
  cases fits (report outcome) <;> rfl

/-- On a connection that is closed after some bytes, the outcome of a session is reported: in one
frame, from which it is read, unless that frame would be too long. What serves connections is left
as the session leaves it. -/
def Reports (host : Host) (bytes : Bytes) (session : Session) : Prop :=
  ∃ outcome, session.outcome? = some outcome ∧
    (serve host .closed bytes).2.2 = host.after session ∧
    if fits (report outcome) then
      (serve host .closed bytes).1 = [report outcome] ∧ (serve host .closed bytes).2.1 = .ok ∧
        Frame.frames true (output (serve host .closed bytes).1) =
          ([encode (report outcome)], .ended) ∧
        decode? (encode (report outcome)) = some (report outcome)
    else (serve host .closed bytes).1 = [] ∧ (serve host .closed bytes).2.1 = .frameTooLong

/-- The outcome of a streaming call that runs by itself is reported on its connection. -/
theorem reports_of_script {first : Bytes} {bodies : List Bytes}
    (hshort : ∀ b ∈ first :: bodies, b.length ≤ Frame.maxLength) {header : CallHeader}
    (hheader : decode? first = some header) {script : Script}
    (hscript : script? header bodies .ended = some script)
    (agent : Agent) (store : Store) (library : Library) :
    Reports ⟨agent, .ofStore store, library⟩ ((first :: bodies).flatMap Frame.encode)
      (script.alone agent store) := by
  have hframes := Frame.frames_flatMap_encode hshort true
  obtain ⟨outcome, houtcome, hserve⟩ :=
    serve_of_script hframes nofun hheader hscript agent store library
  refine ⟨outcome, houtcome, ?_⟩
  rw [hserve]
  refine ⟨rfl, ?_⟩
  cases hfits : fits (report outcome) with
  | false => exact ⟨rfl, rfl⟩
  | true =>
    have houtput : Frame.frames true (output [report outcome]) =
        ([encode (report outcome)], .ended) :=
      frames_output (by simpa using hfits)
    exact ⟨rfl, rfl, houtput, decode?_encode_report outcome⟩

/-- A connection whose first frame is the header of a streaming call is served as that call is
served in process, on the stream of which each element is the request in a frame, or a failure of
the transport where the frame holds no request: one frame is written, from which the outcome of the
call is read, and the agent and the store are left as the call leaves them. In process the outcome
does not depend on the order in which the call and its submission move. Where the frames were
written from requests, they are the stream. The only exception is a reply that is too long for a
frame. -/
theorem serve_agrees_with_call (agent : Agent) (store : Store) (library : Library) (first : Bytes)
    (bodies : List Bytes) (hshort : ∀ b ∈ first :: bodies, b.length ≤ Frame.maxLength) :
    let host : Host := ⟨agent, .ofStore store, library⟩
    let bytes := (first :: bodies).flatMap Frame.encode
    (decode? first = some CallHeader.createTask →
      let session := agent.createTask (.ofStore store) (bodies.map arrival)
      Reports host bytes session ∧
        (∀ t, (Session.alone agent (.ofStore store)
          (.create { CreateCall.start with inbox := ⟨bodies.map arrival, true⟩ })).Settles t →
            t = session) ∧
        ∀ requests : List CreateRequest, bodies = requests.map encode →
          session = agent.createTask (.ofStore store) (requests.map .message)) ∧
    (decode? first = some CallHeader.sendResult →
      let session := agent.sendResult (.ofStore store) (bodies.map arrival)
      Reports host bytes session ∧
        (∀ t, (Session.alone agent (.ofStore store)
          (.result { ResultCall.start with inbox := ⟨bodies.map arrival, true⟩ })).Settles t →
            t = session) ∧
        ∀ requests : List ResultRequest, bodies = requests.map encode →
          session = agent.sendResult (.ofStore store) (requests.map .message)) := by
  intro host bytes
  refine ⟨fun hheader => ?_, fun hheader => ?_⟩
  · have hscript : script? .createTask bodies .ended = some (.create (bodies.map item)) := by
      simp [script?, lastItems]
    have hreports := reports_of_script hshort hheader hscript agent store library
    rw [map_arrival_eq]
    refine ⟨hreports, fun t ht => ?_, fun requests hbodies => ?_⟩
    · have hsettles : (Script.begun agent store (.create (bodies.map item))).Settles t := ht
      exact (Script.settles_eq_ending hsettles).trans (Script.alone_eq_ending agent store _).symm
    · rw [← map_arrival_eq, hbodies, map_arrival_encode CreateRequest.roundTrips]
  · have hscript : script? .sendResult bodies .ended = some (.result (bodies.map item)) := by
      simp [script?, lastItems]
    have hreports := reports_of_script hshort hheader hscript agent store library
    rw [map_arrival_eq]
    refine ⟨hreports, fun t ht => ?_, fun requests hbodies => ?_⟩
    · have hsettles : (Script.begun agent store (.result (bodies.map item))).Settles t := ht
      exact (Script.settles_eq_ending hsettles).trans (Script.alone_eq_ending agent store _).symm
    · rw [← map_arrival_eq, hbodies, map_arrival_encode ResultRequest.roundTrips]

/-- A frame that is no request, after one that is, is reported as a broken stream. -/
theorem serve_agrees_with_call_malformed :
    let agent : Agent := .start ⟨"session", "parent"⟩ ⟨"secret"⟩ 10
    let bodies := [encode (CreateRequest.init "secret" none), [0x7B]]
    (∀ b ∈ encode CallHeader.createTask :: bodies, b.length ≤ Frame.maxLength) ∧
      decode? (encode CallHeader.createTask) = some CallHeader.createTask ∧
      Reports ⟨agent, .ofStore (.empty 0), .empty⟩
        ((encode CallHeader.createTask :: bodies).flatMap Frame.encode)
        (agent.createTask (.ofStore (.empty 0))
          [.message (.init "secret" none), .broken malformedFrame]) := by
  intro agent bodies
  have hshort : ∀ b ∈ encode CallHeader.createTask :: bodies, b.length ≤ Frame.maxLength := by
    decide
  have hheader := CallHeader.roundTrips.decode_encode .createTask trivial
  have hmalformed : (decode? [0x7B] : Option CreateRequest) = none := by rfl
  have harrivals : (bodies.map arrival : List (Arrival CreateRequest)) =
      [.message (.init "secret" none), .broken malformedFrame] := by
    simp [bodies, arrival, CreateRequest.roundTrips.decode_encode _ trivial, hmalformed]
  have hserve := (serve_agrees_with_call agent (.empty 0) .empty _ bodies hshort).1 hheader
  rw [harrivals] at hserve
  exact ⟨hshort, hheader, hserve.1⟩

end Connection

end Sidecar
