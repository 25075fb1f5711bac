import Sidecar.Protocol.Violation

/-!
# The order of messages in a call

A `Grammar` is a table: from a state and an event to the next state, or to nothing where the event
is out of order. A `Machine` runs a grammar. It remembers whether it has refused an event, and from
then on it refuses all of them and stays in the state it was in.

There are two grammars. Creating tasks repeats a header and its payload until the last task is
announced (`taskCreation`); handing in a result takes exactly one key and its data
(`resultIngestion`).
-/

namespace Sidecar

/-- A table of states and events, with their names and with lists of all of them. -/
structure Grammar (σ ε : Type) where
  name : String
  states : List σ
  events : List ε
  start : σ
  next? : σ → ε → Option σ
  isTerminal : σ → Bool
  stateName : σ → String
  eventName : ε → String

namespace Grammar

variable {σ ε : Type}

/-- The state of a name. -/
def stateNamed? (grammar : Grammar σ ε) (name : String) : Option σ :=
  grammar.states.find? fun state => grammar.stateName state = name

/-- The event of a name. -/
def eventNamed? (grammar : Grammar σ ε) (name : String) : Option ε :=
  grammar.events.find? fun event => grammar.eventName event = name

end Grammar

/-- A run of a grammar: where it stands, and whether it has refused an event. -/
structure Machine {σ ε : Type} (grammar : Grammar σ ε) where
  state : σ
  failed : Bool

namespace Machine

variable {σ ε : Type} {grammar : Grammar σ ε}

/-- A run that has seen no event. -/
def start : Machine grammar := ⟨grammar.start, false⟩

/-- The next state, unless the event is refused. -/
def next? (m : Machine grammar) (event : ε) : Option σ :=
  if m.failed then none else grammar.next? m.state event

/-- The refusal of an event in the present state. -/
def refusal (m : Machine grammar) (event : ε) : OutOfOrder :=
  ⟨grammar.name, grammar.stateName m.state, grammar.eventName event⟩

/-- Apply an event. A refused event leaves the state as it was. -/
def fire (m : Machine grammar) (event : ε) : Except OutOfOrder σ × Machine grammar :=
  match m.next? event with
  | some state => (.ok state, { m with state })
  | none => (.error (m.refusal event), { m with failed := true })

/-- Has the run reached its end without a refusal? -/
def isTerminal (m : Machine grammar) : Bool := !m.failed && grammar.isTerminal m.state

/-- The machine on one line. -/
def render (m : Machine grammar) : String :=
  grammar.name ++ " \x7b state: " ++ grammar.stateName m.state ++ ", failed: " ++
    (if m.failed then "true" else "false") ++ " \x7d"

end Machine

/-! ## Creating tasks -/

/-- Where a creation call stands. -/
inductive CreationState where
  | idle
  | awaitingHeaderOrEnd
  | receivingChunks
  | terminal
deriving DecidableEq, Repr

/-- The messages of a creation call. -/
inductive CreationEvent where
  | initRequest
  | header
  | data
  | dataComplete
  | lastTask
deriving DecidableEq, Repr

/-- The order of a creation call. -/
def taskCreation : Grammar CreationState CreationEvent where
  name := "TaskCreation"
  states := [.idle, .awaitingHeaderOrEnd, .receivingChunks, .terminal]
  events := [.initRequest, .header, .data, .dataComplete, .lastTask]
  start := .idle
  next?
    | .idle, .initRequest => some .awaitingHeaderOrEnd
    | .awaitingHeaderOrEnd, .header => some .receivingChunks
    | .awaitingHeaderOrEnd, .lastTask => some .terminal
    | .receivingChunks, .data => some .receivingChunks
    | .receivingChunks, .dataComplete => some .awaitingHeaderOrEnd
    | _, _ => none
  isTerminal state := state = .terminal
  stateName
    | .idle => "Idle"
    | .awaitingHeaderOrEnd => "AwaitingHeaderOrEnd"
    | .receivingChunks => "ReceivingChunks"
    | .terminal => "Terminal"
  eventName
    | .initRequest => "InitRequest"
    | .header => "Header"
    | .data => "Data"
    | .dataComplete => "DataComplete"
    | .lastTask => "LastTask"

/-! ## Handing in a result -/

/-- Where a result call stands. -/
inductive IngestionState where
  | idle
  | receivingChunks
  | awaitingEnd
  | terminal
deriving DecidableEq, Repr

/-- The messages of a result call. -/
inductive IngestionEvent where
  | initKey
  | data
  | dataComplete
  | lastResult
deriving DecidableEq, Repr

/-- The order of a result call. -/
def resultIngestion : Grammar IngestionState IngestionEvent where
  name := "ResultIngestion"
  states := [.idle, .receivingChunks, .awaitingEnd, .terminal]
  events := [.initKey, .data, .dataComplete, .lastResult]
  start := .idle
  next?
    | .idle, .initKey => some .receivingChunks
    | .receivingChunks, .data => some .receivingChunks
    | .receivingChunks, .dataComplete => some .awaitingEnd
    | .awaitingEnd, .lastResult => some .terminal
    | _, _ => none
  isTerminal state := state = .terminal
  stateName
    | .idle => "Idle"
    | .receivingChunks => "ReceivingChunks"
    | .awaitingEnd => "AwaitingEnd"
    | .terminal => "Terminal"
  eventName
    | .initKey => "InitKey"
    | .data => "Data"
    | .dataComplete => "DataComplete"
    | .lastResult => "LastResult"

end Sidecar
