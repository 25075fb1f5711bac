import Sidecar.Submission.Intake

/-!
# What is behind an agent

An agent submits to a `Backend`. In the ordinary case that is the `Store`, through an `Intake`. A
backend may also have a `StandIn` for one kind of submission: one that reads some entries of its
queue, may drop the queue, and then ends as it was told to, breaks down, or never ends. An agent
cannot tell the two apart, and has to cope with both.
-/

namespace Sidecar

/-- How a stand-in ends. -/
inductive Ending (ω : Type) where
  | never
  | breakdown
  | outcome (outcome : Except Cause ω)

/-- A submission that does as it is told: the entries it still reads, whether it drops its queue
then, and how it ends. -/
structure StandIn (ω : Type) where
  reads : Nat
  dropsQueue : Bool
  ending : Ending ω

namespace StandIn

variable {ω α : Type}

/-- The next thing it does. A queue that has come to its end stays there, so that no entry is left
to read. -/
def step (s : StandIn ω) (stopped : Bool) (q : Queue α) : Progress (StandIn ω) ω × Queue α :=
  match s.reads with
  | n + 1 =>
    match q.recv stopped with
    | (.pending, q) => (.waiting, q)
    | (.item _, q) => (.going { s with reads := n }, q)
    | (_, q) => (.going { s with reads := 0 }, q)
  | 0 =>
    if s.dropsQueue then (.going { s with dropsQueue := false }, q.dropReader)
    else
      match s.ending with
      | .never => (.waiting, q)
      | .breakdown => (.broken, q)
      | .outcome o => (.ended o, q)

end StandIn

/-! ## Submissions of either kind -/

/-- A change of the way a step goes on and of what it ends with. -/
def Progress.map {σ τ ω υ : Type} (f : σ → τ) (g : ω → υ) : Progress σ ω → Progress τ υ
  | .waiting => .waiting
  | .going s => .going (f s)
  | .ended o => .ended (o.map g)
  | .broken => .broken

/-- The creation of a batch of tasks. -/
inductive CreateWork where
  | intake (intake : Intake)
  | standIn (standIn : StandIn (List CreatedTask))

namespace CreateWork

/-- The next thing it does. A stand-in stores nothing. -/
def step (work : CreateWork) (store : Store) (stopped : Bool) (qs : TaskQueues) :
    Progress CreateWork Submitted × TaskQueues :=
  match work with
  | intake i =>
    let (progress, qs) := i.step store stopped qs
    (progress.map intake id, qs)
  | standIn s =>
    let (progress, headers) := s.step stopped qs.headers
    (progress.map standIn fun created => ⟨[], created⟩, { qs with headers })

end CreateWork

/-- The submission of a result. -/
inductive ResultWork where
  | intake (intake : ResultIntake)
  | standIn (standIn : StandIn Unit)

namespace ResultWork

/-- The next thing it does. A stand-in stores nothing. -/
def step (work : ResultWork) (store : Store) (stopped : Bool) (q : Queue Bytes) :
    Progress ResultWork (Option (String × StoredResult)) × Queue Bytes :=
  match work with
  | intake i =>
    let (progress, q) := i.step store stopped q
    (progress.map intake some, q)
  | standIn s =>
    let (progress, q) := s.step stopped q
    (progress.map standIn fun _ => none, q)

end ResultWork

/-! ## The backend -/

/-- The store, and the stand-ins for the submissions that do not go to it. -/
structure Backend where
  store : Store
  onCreate : Option (StandIn (List CreatedTask))
  onResult : Option (StandIn Unit)
  onFinalize : Option (Except Cause Nat)

namespace Backend

/-- A backend that is a store and nothing else. -/
def ofStore (store : Store) : Backend := ⟨store, none, none, none⟩

/-- Begin to create a batch of tasks. -/
def create (b : Backend) (identity : Identity) (options : Option TaskOptions) : CreateWork :=
  match b.onCreate with
  | some s => .standIn s
  | none => .intake (.start identity options)

/-- Begin to take in a result. -/
def result (b : Backend) (identity : Identity) (key : String) : ResultWork :=
  match b.onResult with
  | some s => .standIn s
  | none => .intake ⟨identity, key, []⟩

/-- Release tasks for scheduling, and say how many. -/
def finalize (b : Backend) (created : List CreatedTask) : Except Cause Nat × Backend :=
  match b.onFinalize with
  | some outcome => (outcome, b)
  | none =>
    let (outcome, store) := b.store.finalize created
    (outcome, { b with store })

end Backend

end Sidecar
