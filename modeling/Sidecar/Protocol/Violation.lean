import Sidecar.Message.Worker

/-!
# Violations

A peer that sends its messages in an order the protocol does not allow, leaves a union unset or
stops before the end commits a `Violation`. A violation ends the call it happens in; nothing is
retried.
-/

namespace Sidecar

/-- An event that a machine refused, with the state the machine was in. -/
structure OutOfOrder where
  machine : String
  state : String
  event : String
deriving DecidableEq, Repr

/-- The text of the refusal. -/
def OutOfOrder.message (e : OutOfOrder) : String :=
  e.machine ++ ": invalid transition from " ++ e.state ++ " on " ++ e.event

/-- What is wrong with a sequence of messages. -/
inductive Violation where
  | outOfOrder (refusal : OutOfOrder)
  | unknownCase (name : String)
  | interleaved (opened got : ReplyTag)
  | unexpectedEnd (stream : String)
  | noData
deriving DecidableEq, Repr

/-- The text of the violation. -/
def Violation.message : Violation → String
  | outOfOrder e => e.message
  | unknownCase name => "unknown or unset message case: " ++ name
  | interleaved opened got =>
    "interleaved reply groups: " ++ opened.name ++ " group still open, got " ++ got.name
  | unexpectedEnd stream => stream ++ " stream ended before its terminal message"
  | noData => "no data produced"

end Sidecar
