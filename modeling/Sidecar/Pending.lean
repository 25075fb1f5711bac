import Sidecar.Cause

/-!
# Work in the background

A call hands its submission to the background and waits for the outcome before it replies. A
`Background` is such work as the call sees it. Waiting (`Background.wait`) looks at the call's own
stop first: a stopped call learns nothing of the work, however it ended.
-/

namespace Sidecar

/-- Work in the background: still running, ended with a value or a cause, or broken down. -/
inductive Background (α : Type) where
  | running
  | ended (outcome : Except Cause α)
  | broken

/-- What waiting for background work yields. -/
inductive Awaited (α : Type) where
  | cancelled
  | pending
  | outcome (outcome : Except Cause α)

/-- The cause of an outcome that never came, because the work broke down. -/
def brokenDown : Cause := .ofText "background operation panicked"

/-- Wait for the outcome. -/
def Background.wait {α : Type} (work : Background α) (stopped : Bool) : Awaited α :=
  if stopped then .cancelled
  else
    match work with
    | .running => .pending
    | .ended outcome => .outcome outcome
    | .broken => .outcome (.error brokenDown)

end Sidecar
