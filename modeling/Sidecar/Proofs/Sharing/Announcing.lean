import Sidecar.Proofs.Creation.Sequential
import Sidecar.Proofs.Sharing.Overwriting

/-!
# Calls that announce the same id

A call that is answered as successful has committed the batch its stream has asked for
(`Depot.Accounts`). Two such batches share an id only where one of the two calls has overwritten
what the other had stored. `Depot.stays_iff_not_overtaken` puts this together with what remains of
the stored tasks: everything stays as it should exactly on the interleavings on which no submission
is overtaken.
-/

namespace Sidecar

namespace CreateCall.Pursues

variable {call : CreateCall} {agent : Agent} {ended : Bool}
  {items : List (Except Cause CreateRequest)} {b : Batch}

/-- What arrives belongs to what the call makes of its stream. -/
theorem deliver
    (h : call.Pursues agent ended (scanRequests agent.token .idle .empty items) b)
    (item : Except Cause CreateRequest) :
    ({ call with inbox := call.inbox.deliver (.ofItem item) } : CreateCall).Pursues agent ended
      (scanRequests agent.token .idle .empty (items ++ [item])) b := by
  obtain ⟨rest, hinbox, hverdict⟩ := h.stream
  refine ⟨h.serves.setInbox _, rest ++ [item], by simp [hinbox, Inbox.deliver], ?_⟩
  have happend := scanStream_append (examineCreation agent.token) items [item] .idle .empty
  rw [scanRequests] at hverdict
  rw [scanRequests, happend, ← hverdict, prospect, prospect]
  by_cases hstate : call.machine.state = .terminal
  · rw [if_pos hstate, if_pos hstate]
  · rw [if_neg hstate, if_neg hstate]
    exact scanStream_append _ _ _ _ _

/-- That the stream ends belongs to what the call makes of it. -/
theorem finish {verdict : CreateVerdict} (h : call.Pursues agent ended verdict b) :
    ({ call with inbox := call.inbox.finish } : CreateCall).Pursues agent true verdict b := by
  obtain ⟨rest, hinbox, hverdict⟩ := h.stream
  exact ⟨h.serves.setInbox _, rest, by simp [hinbox, Inbox.finish], hverdict⟩

end CreateCall.Pursues

namespace Depot

/-! ## What a call has done -/

/-- What has arrived on the stream of a call. -/
def itemsOf (es : List DepotEvent) (i : Nat) : List (Except Cause CreateRequest) :=
  es.filterMap fun
    | .deliver j item => if j = i then some item else none
    | .finish _ | .advance _ | .work _ | .finalize _ _ => none

/-- Has the stream of a call ended? -/
def hasFinished (es : List DepotEvent) (i : Nat) : Bool :=
  es.any fun
    | .finish j => j = i
    | .deliver _ _ | .advance _ | .work _ | .finalize _ _ => false

/-- The submission of a call has stored a batch with these ids. -/
def Committed (d : Depot) (es : List DepotEvent) (i : Nat) (ids : List String) : Prop :=
  ∃ es₁ es₂, es = es₁ ++ .work i :: es₂ ∧ (d.run es₁).storedIds (.work i) = ids

/-- A call is on its way through its stream, or it is over. If it has stored its batch, or was
answered as successful, it has committed what its stream has asked for. -/
inductive Accounts (d : Depot) (es : List DepotEvent) (i : Nat) (agent : Agent) :
    CreateCall → Prop where
  | underway {call : CreateCall} {b : Batch}
      (h : call.Pursues agent (hasFinished es i)
        (scanRequests agent.token .idle .empty (itemsOf es i)) b)
      (hstored : call.HasStored → d.Committed es i b.ids) : Accounts d es i agent call
  | answered {call : CreateCall} {result : CreateResult} (hphase : call.phase = .done result)
      (hwork : call.work = .absent)
      (h : result = .ok .successful → ∃ b,
        scanRequests agent.token .idle .empty (itemsOf es i) = .complete b ∧
          d.Committed es i b.ids) : Accounts d es i agent call

variable {d : Depot} {es : List DepotEvent} {i : Nat} {agent : Agent} {call : CreateCall}

theorem Committed.later {ids : List String} (h : d.Committed es i ids) (e : DepotEvent) :
    d.Committed (es ++ [e]) i ids := by
  obtain ⟨es₁, es₂, rfl, hids⟩ := h
  exact ⟨es₁, es₂ ++ [e], by simp, hids⟩

/-- An event that brings nothing to the stream of a call leaves the call's account as it is. -/
theorem Accounts.later (h : d.Accounts es i agent call) {e : DepotEvent}
    (hitems : itemsOf (es ++ [e]) i = itemsOf es i)
    (hended : hasFinished (es ++ [e]) i = hasFinished es i) :
    d.Accounts (es ++ [e]) i agent call := by
  cases h with
  | underway h hstored =>
    refine .underway (b := _) ?_ fun hs => (hstored hs).later e
    rwa [hitems, hended]
  | answered hphase hwork h =>
    refine .answered hphase hwork ?_
    intro hresult
    obtain ⟨b, hscan, hcommitted⟩ := h hresult
    exact ⟨b, by rw [hitems, hscan], hcommitted.later e⟩

/-- Which tasks an agent has to release does not matter to the account of a call. -/
theorem Accounts.setCreated (h : d.Accounts es i agent call) (created : List CreatedTask) :
    d.Accounts es i { agent with created } call := by
  cases h with
  | underway h hstored => exact .underway ⟨h.serves, h.stream⟩ hstored
  | answered hphase hwork h => exact .answered hphase hwork h

/-- An element arrives. -/
theorem Accounts.deliver (h : d.Accounts es i agent call) (item : Except Cause CreateRequest) :
    d.Accounts (es ++ [.deliver i item]) i agent
      { call with inbox := call.inbox.deliver (.ofItem item) } := by
  have hitems : itemsOf (es ++ [.deliver i item]) i = itemsOf es i ++ [item] := by simp [itemsOf]
  have hended : hasFinished (es ++ [.deliver i item]) i = hasFinished es i := by
    simp [hasFinished]
  cases h with
  | underway h hstored =>
    refine .underway (b := _) ?_ fun hs => (hstored hs).later _
    rw [hitems, hended]
    exact h.deliver item
  | answered hphase hwork h =>
    refine .answered hphase hwork ?_
    intro hresult
    obtain ⟨b, hscan, hcommitted⟩ := h hresult
    refine ⟨b, ?_, hcommitted.later _⟩
    rw [hitems, scanRequests, scanStream_append]
    rw [scanRequests] at hscan
    rw [hscan]

/-- The stream ends. -/
theorem Accounts.finish (h : d.Accounts es i agent call) :
    d.Accounts (es ++ [.finish i]) i agent { call with inbox := call.inbox.finish } := by
  have hitems : itemsOf (es ++ [.finish i]) i = itemsOf es i := by simp [itemsOf]
  have hended : hasFinished (es ++ [.finish i]) i = true := by simp [hasFinished]
  cases h with
  | underway h hstored =>
    refine .underway (b := _) ?_ fun hs => (hstored hs).later _
    rw [hitems, hended]
    exact h.finish
  | answered hphase hwork h =>
    refine .answered hphase hwork ?_
    intro hresult
    obtain ⟨b, hscan, hcommitted⟩ := h hresult
    exact ⟨b, by rw [hitems, hscan], hcommitted.later _⟩

/-- The call takes its next step. -/
theorem Accounts.advance (h : d.Accounts es i agent call) (hrun : agent.stopped = false)
    {store : Store} {agent' : Agent} {call' : CreateCall}
    (hmove : call.advance agent (.ofStore store) = some (agent', call')) :
    (∃ created, agent' = { agent with created }) ∧
      d.Accounts (es ++ [.advance i]) i agent' call' := by
  have hitems : itemsOf (es ++ [.advance i]) i = itemsOf es i := by simp [itemsOf]
  have hended : hasFinished (es ++ [.advance i]) i = hasFinished es i := by simp [hasFinished]
  cases h with
  | answered hphase hwork h => simp [CreateCall.advance, hphase] at hmove
  | @underway b h hstored =>
    have hkeeps := CreateCall.keepsWork_advance hmove
    have hturn := h.turn hrun (.call hmove)
    generalize hbackend : Backend.ofStore store = backend at hturn
    cases hturn with
    | @goesOn b' _ h' _ hafter _ =>
      refine ⟨⟨agent.created, rfl⟩, .underway (b := b') ?_ fun hs => absurd hs hafter⟩
      rwa [hitems, hended]
    | breaksOff hdecides _ =>
      refine ⟨⟨agent.created, rfl⟩, .answered rfl rfl ?_⟩
      intro hresult
      rw [hresult] at hdecides
      generalize hscan : scanRequests agent.token .idle .empty (itemsOf es i) = verdict at hdecides
      cases hdecides
      exact absurd hscan (scanRequests_ne_successful _ _ _ _)
    | stores _ _ hbefore hafter _ => exact absurd (hkeeps.hasStored hafter) hbefore
    | replies hverdict hbefore =>
      refine ⟨⟨_, rfl⟩, .answered rfl rfl fun _ => ⟨b, ?_, (hstored hbefore).later _⟩⟩
      rw [hitems, hverdict]
    | refuses _ _ _ =>
      refine ⟨⟨agent.created, rfl⟩, .answered rfl rfl ?_⟩
      intro hresult
      simp [CreateReply.nonSuccessful, CreateReply.successful] at hresult

/-- The batch a submission stores has the ids of the tasks it reports as created. -/
theorem storedIds_of_advanceWork {a : Nat} (hserving : d.serving? i = some (a, agent, call))
    (hserves : ∃ b, call.Serves agent.identity b) {backend' : Backend} {call' : CreateCall}
    (hmove : call.advanceWork agent.stopped (.ofStore d.store) = some (backend', call'))
    {created : List CreatedTask} (hcreated : call'.work = .finished (.ok created)) :
    d.storedIds (.work i) = created.map (·.taskId) := by
  rcases CreateCall.advanceWork_effect hmove with
    ⟨submitted, hcommit, -, hwork⟩ | ⟨-, -, hunstored, -⟩
  · rw [hwork] at hcreated
    cases hcreated
    simp only [storedIds, stores, hserving, hcommit]
    rcases CreateCall.commit?_eq_some hcommit with ⟨i, qs, -, hstep⟩ | ⟨s, hs, -⟩
    · rw [(Intake.tasks_of_step hstep).1]
      simp [Intake.submitted, TaskHeader.created]
    · obtain ⟨b, hserves⟩ := hserves
      have hsubmits := hserves.work
      simp only [CreateCall.Submits, hs] at hsubmits
  · exact absurd ⟨created, hcreated⟩ hunstored

/-- The submission of the call takes its next step. -/
theorem Accounts.work {a : Nat} (hserving : (d.run es).serving? i = some (a, agent, call))
    (h : d.Accounts es i agent call) (hrun : agent.stopped = false) {backend' : Backend}
    {call' : CreateCall}
    (hmove : call.advanceWork agent.stopped (.ofStore (d.run es).store) = some (backend', call')) :
    d.Accounts (es ++ [.work i]) i agent call' := by
  have hitems : itemsOf (es ++ [.work i]) i = itemsOf es i := by simp [itemsOf]
  have hended : hasFinished (es ++ [.work i]) i = hasFinished es i := by simp [hasFinished]
  cases h with
  | answered hphase hwork h => simp [CreateCall.advanceWork, hwork] at hmove
  | @underway b h hstored =>
    have hturn := h.turn hrun (.work hmove)
    have hids : ∀ created, call'.work = .finished (.ok created) →
        (d.run es).storedIds (.work i) = created.map (·.taskId) := fun _ hcreated =>
      storedIds_of_advanceWork hserving ⟨b, h.serves⟩ hmove hcreated
    have hopen : ∀ result, call' ≠ CreateCall.ended result := by
      rintro result rfl
      have hphase := CreateCall.phase_advanceWork hmove
      have horder := h.serves.order
      simp [CreateCall.InOrder, ← hphase, CreateCall.ended] at horder
    generalize hr : (agent, backend', call') = r at hturn
    cases hturn with
    | @goesOn b' _ h' _ hafter _ =>
      cases hr
      refine .underway (b := b') ?_ fun hs => absurd hs hafter
      rwa [hitems, hended]
    | stores h' _ _ hafter _ =>
      cases hr
      refine .underway (b := b) (by rwa [hitems, hended]) fun _ => ⟨es, [], rfl, ?_⟩
      obtain ⟨created, hcreated⟩ := hafter
      have hsubmits := h'.serves.work
      simp only [CreateCall.Submits, hcreated] at hsubmits
      rw [hids created hcreated, hsubmits.2]
      simp [Batch.created, Batch.ids, TaskHeader.created]
    | breaksOff _ _ => exact absurd (congrArg (·.2.2) hr) (hopen _)
    | replies _ _ => exact absurd (congrArg (·.2.2) hr) (hopen _)
    | refuses _ _ _ => exact absurd (congrArg (·.2.2) hr) (hopen _)

/-! ## What all calls have done -/

/-- No agent is stopped, and all calls are accounted for. -/
structure Keeps (d : Depot) (es : List DepotEvent) : Prop where
  running : ∀ agent ∈ (d.run es).agents, agent.stopped = false
  accounts : ∀ i a agent call, (d.run es).serving? i = some (a, agent, call) →
    d.Accounts es i agent call

/-- The event brings nothing to the streams. -/
def BringsNothing (es : List DepotEvent) (e : DepotEvent) : Prop :=
  ∀ i, itemsOf (es ++ [e]) i = itemsOf es i ∧ hasFinished (es ++ [e]) i = hasFinished es i

namespace Keeps

variable {e : DepotEvent}

/-- Nothing happens. -/
theorem same (h : d.Keeps es) (hnothing : BringsNothing es e)
    (hrun : d.run (es ++ [e]) = d.run es) : d.Keeps (es ++ [e]) := by
  refine ⟨by rw [hrun]; exact h.running, ?_⟩
  intro i a agent call hi
  rw [hrun] at hi
  exact (h.accounts i a agent call hi).later (hnothing i).1 (hnothing i).2

/-- An agent has other tasks to release. -/
theorem setCreated (h : d.Keeps es) (hnothing : BringsNothing es e) {a : Nat} {agent : Agent}
    (hagent : (d.run es).agents[a]? = some agent) (store : Store) (created : List CreatedTask)
    (hrun : d.run (es ++ [e]) =
      ⟨store, (d.run es).agents.set a { agent with created }, (d.run es).calls⟩) :
    d.Keeps (es ++ [e]) := by
  refine ⟨?_, ?_⟩
  · intro agent' hmem
    rw [hrun] at hmem
    rcases List.mem_or_eq_of_mem_set hmem with hmem | rfl
    · exact h.running _ hmem
    · exact h.running agent (List.mem_of_getElem? hagent)
  · intro i a' agent' call hi
    rw [hrun] at hi
    obtain ⟨before, created', rfl, hbefore⟩ := serving?_setAgent hagent hi
    have hserving : (d.run es).serving? i = some (a', before, call) :=
      serving?_eq_some_iff.2 (serving?_eq_some_iff.1 hbefore)
    exact ((h.accounts i a' before call hserving).later (hnothing i).1 (hnothing i).2).setCreated _

/-- A call or its submission has taken a step. -/
theorem step (h : d.Keeps es) (hnothing : BringsNothing es e) {j a : Nat} {agent : Agent}
    {call call' : CreateCall} (hj : (d.run es).serving? j = some (a, agent, call)) (store : Store)
    (created : List CreatedTask)
    (hrun : d.run (es ++ [e]) =
      ⟨store, (d.run es).agents.set a { agent with created }, (d.run es).calls.set j (a, call')⟩)
    (hcall : d.Accounts (es ++ [e]) j { agent with created } call') : d.Keeps (es ++ [e]) := by
  obtain ⟨hcalls, hagent⟩ := serving?_eq_some_iff.1 hj
  refine ⟨?_, ?_⟩
  · intro agent' hmem
    rw [hrun] at hmem
    rcases List.mem_or_eq_of_mem_set hmem with hmem | rfl
    · exact h.running _ hmem
    · exact h.running agent (List.mem_of_getElem? hagent)
  · intro i a' agent' call₂ hi
    rw [hrun] at hi
    obtain ⟨before, created', rfl, hbefore⟩ := serving?_setAgent hagent hi
    rcases serving?_set (List.getElem?_eq_some_iff.1 hcalls).1 hbefore with
      ⟨rfl, rfl, rfl, hsame⟩ | ⟨-, hserving⟩
    · cases hagent.symm.trans hsame
      exact hcall.setCreated created'
    · exact ((h.accounts i a' before call₂ hserving).later (hnothing i).1
        (hnothing i).2).setCreated _

/-- Something arrives for a call. -/
theorem arrives (h : d.Keeps es) (j : Nat) (change : Inbox CreateRequest → Inbox CreateRequest)
    (hrun : d.run (es ++ [e]) = (d.run es).modifyInbox j change)
    (hother : ∀ i, j ≠ i →
      itemsOf (es ++ [e]) i = itemsOf es i ∧ hasFinished (es ++ [e]) i = hasFinished es i)
    (hcall : ∀ agent call, d.Accounts es j agent call →
      d.Accounts (es ++ [e]) j agent { call with inbox := change call.inbox }) :
    d.Keeps (es ++ [e]) := by
  refine ⟨by rw [hrun]; exact h.running, ?_⟩
  intro i a agent call hi
  rw [hrun] at hi
  obtain ⟨before, hbefore, rfl⟩ := serving?_modifyInbox hi
  have haccounts := h.accounts i a agent before hbefore
  by_cases hj : j = i
  · subst hj
    rw [if_pos rfl]
    exact hcall agent before haccounts
  · rw [if_neg hj]
    exact haccounts.later (hother i hj).1 (hother i hj).2

/-- Every event keeps the calls accounted for. -/
theorem snoc (h : d.Keeps es) (e : DepotEvent) : d.Keeps (es ++ [e]) := by
  have hrun : d.run (es ++ [e]) = (d.run es).apply e := by simp
  cases e with
  | deliver j item =>
    refine h.arrives j (·.deliver (.ofItem item)) hrun (?_)
      fun agent call haccounts => haccounts.deliver item
    intro i hj
    simp [itemsOf, hasFinished, hj]
  | finish j =>
    refine h.arrives j Inbox.finish hrun (?_)
      fun agent call haccounts => haccounts.finish
    intro i hj
    simp [itemsOf, hasFinished, hj]
  | advance j =>
    have hnothing : BringsNothing es (.advance j) := fun i => by simp [itemsOf, hasFinished]
    cases hj : (d.run es).serving? j with
    | none => exact h.same hnothing (by simp only [hrun, apply, hj])
    | some served =>
      obtain ⟨a, agent, call⟩ := served
      have hagent := List.mem_of_getElem? (serving?_eq_some_iff.1 hj).2
      cases hmove : call.advance agent (.ofStore (d.run es).store) with
      | none => exact h.same hnothing (by simp only [hrun, apply, hj, hmove])
      | some next =>
        obtain ⟨agent', call'⟩ := next
        obtain ⟨⟨created, rfl⟩, hcall⟩ :=
          (h.accounts j a agent call hj).advance (h.running agent hagent) hmove
        exact h.step hnothing hj (d.run es).store created
          (by simp only [hrun, apply, hj, hmove]) hcall
  | work j =>
    have hnothing : BringsNothing es (.work j) := fun i => by simp [itemsOf, hasFinished]
    cases hj : (d.run es).serving? j with
    | none => exact h.same hnothing (by simp only [hrun, apply, hj])
    | some served =>
      obtain ⟨a, agent, call⟩ := served
      have hagent := (serving?_eq_some_iff.1 hj).2
      cases hmove : call.advanceWork agent.stopped (.ofStore (d.run es).store) with
      | none => exact h.same hnothing (by simp only [hrun, apply, hj, hmove])
      | some next =>
        obtain ⟨backend', call'⟩ := next
        have hcall := (h.accounts j a agent call hj).work hj
          (h.running agent (List.mem_of_getElem? hagent)) hmove
        refine h.step hnothing hj backend'.store agent.created ?_ hcall
        have hsame : (d.run es).agents.set a agent = (d.run es).agents := by
          obtain ⟨ha, hself⟩ := List.getElem?_eq_some_iff.1 hagent
          rw [← hself, List.set_getElem_self]
        simp only [hrun, apply, hj, hmove, hsame]
  | finalize a request =>
    have hnothing : BringsNothing es (.finalize a request) := fun i => by
      simp [itemsOf, hasFinished]
    cases hagent : (d.run es).agents[a]? with
    | none => exact h.same hnothing (by simp only [hrun, apply, hagent])
    | some agent =>
      have hfinalize : ∃ created, ((agent.finalize (.ofStore (d.run es).store) request).2.1 =
          { agent with created }) := by
        simp only [Agent.finalize]
        split
        · exact ⟨_, rfl⟩
        · split <;> exact ⟨_, rfl⟩
      obtain ⟨created, hcreated⟩ := hfinalize
      exact h.setCreated hnothing hagent _ created
        (by simp only [hrun, apply, hagent, hcreated]; rfl)

end Keeps

/-- On every interleaving the calls are accounted for. -/
theorem keeps_run (store : Store) (servants : List (Identity × Token × Nat)) (owners : List Nat)
    (es : List DepotEvent) : (start store servants owners).Keeps es := by
  induction es using List.reverseRecOn with
  | nil =>
    refine ⟨?_, ?_⟩
    · intro agent hagent
      obtain ⟨servant, -, rfl⟩ := List.mem_map.1 hagent
      rfl
    · intro i a agent call hi
      obtain ⟨hcall, -⟩ := serving?_eq_some_iff.1 hi
      simp only [run_nil, start, List.getElem?_map, Option.map_eq_some_iff] at hcall
      obtain ⟨a', -, heq⟩ := hcall
      cases heq
      refine .underway (CreateCall.pursues_start agent [] false) ?_
      intro hstored
      exact absurd hstored (by simp [CreateCall.HasStored, CreateCall.start])
  | append_singleton es e ih => exact ih.snoc e

/-! ## Batches that share an id -/

/-- What two calls have committed shares no id, unless something was overwritten. -/
theorem Committed.disjoint {d : Depot} {es : List DepotEvent} {i j : Nat} {ids ids' : List String}
    (h : d.Committed es i ids) (h' : d.Committed es j ids') (hij : i ≠ j)
    (hnot : ¬ d.Overwrites es) : ∀ id ∈ ids, id ∉ ids' := by
  -- Whoever commits first has stored the id when the other one commits.
  have hearlier : ∀ (i j : Nat) (es₁ mid es₂ : List DepotEvent) (id : String),
      es = es₁ ++ .work i :: (mid ++ .work j :: es₂) → id ∈ (d.run es₁).storedIds (.work i) →
      id ∉ (d.run (es₁ ++ .work i :: mid)).storedIds (.work j) := by
    intro i j es₁ mid es₂ id hes hid hid'
    refine hnot ⟨es₁ ++ .work i :: mid, .work j, es₂, by rw [hes]; simp, id, hid', ?_⟩
    rw [run_append, run_cons]
    refine contains_run _ mid ?_
    rw [contains_apply, decide_eq_true hid, Bool.or_true]
  obtain ⟨es₁, es₂, hes, rfl⟩ := h
  obtain ⟨es₁', es₂', hes', rfl⟩ := h'
  intro id hid hid'
  rcases List.append_eq_append_iff.1 (hes.symm.trans hes') with
    ⟨mid, rfl, htail⟩ | ⟨mid, rfl, htail⟩
  · cases mid with
    | nil =>
      cases htail
      exact hij rfl
    | cons e mid =>
      rw [List.cons_append, List.cons.injEq] at htail
      obtain ⟨rfl, rfl⟩ := htail
      exact hearlier i j es₁ mid es₂' id hes hid hid'
  · cases mid with
    | nil =>
      cases htail
      exact hij rfl
    | cons e mid =>
      rw [List.cons_append, List.cons.injEq] at htail
      obtain ⟨rfl, rfl⟩ := htail
      exact hearlier j i es₁' mid es₂ id hes' hid' hid

/-- Everything stays as it should: nothing is overwritten, every stored task remains, and two calls
that were answered as successful had asked for batches that share no id. -/
structure Stays (d : Depot) (es : List DepotEvent) : Prop where
  kept : ¬ d.Overwrites es
  remains : ∀ es₁ es₂ id t, es = es₁ ++ es₂ → (d.run es₁).store.tasks.get? id = some t →
    ∃ t', (d.run es).store.tasks.get? id = some t' ∧ t.Remains t'
  apart : ∀ i j a a' agent agent' call call', i ≠ j →
    (d.run es).serving? i = some (a, agent, call) →
    (d.run es).serving? j = some (a', agent', call') →
    call.result? = some (.ok .successful) → call'.result? = some (.ok .successful) →
    ∃ b b', scanRequests agent.token .idle .empty (itemsOf es i) = .complete b ∧
      scanRequests agent'.token .idle .empty (itemsOf es j) = .complete b' ∧
      ∀ id ∈ b.ids, id ∉ b'.ids

/-- A call that was answered as successful has committed what its stream has asked for. -/
theorem Accounts.successful {d : Depot} {es : List DepotEvent} {i : Nat} {agent : Agent}
    {call : CreateCall} (h : d.Accounts es i agent call)
    (hresult : call.result? = some (.ok .successful)) :
    ∃ b, scanRequests agent.token .idle .empty (itemsOf es i) = .complete b ∧
      d.Committed es i b.ids := by
  cases h with
  | underway h hstored =>
    rw [CreateCall.Serves.result?_eq_none h.serves] at hresult
    cases hresult
  | answered hphase hwork h =>
    simp only [CreateCall.result?, hphase, Option.some.injEq] at hresult
    exact h hresult

/-- However the calls of agents that share a store are interleaved with each other and with the
releasing of tasks, everything stays as it should exactly if no submission is overtaken: if no id
is stored by another submission between the time a submission reads it and the time that submission
stores its batch. -/
theorem stays_iff_not_overtaken (store : Store) (servants : List (Identity × Token × Nat))
    (owners : List Nat) (es : List DepotEvent) :
    (start store servants owners).Stays es ↔ ¬ (start store servants owners).Overtaken es := by
  have hstart : ∀ i, (start store servants owners).readIds i = [] := by
    intro i
    simp only [readIds, start, List.getElem?_map]
    cases owners[i]? <;> rfl
  rw [← overwrites_iff_overtaken hstart]
  refine ⟨fun h => h.kept, fun h => ⟨h, ?_, ?_⟩⟩
  · intro es₁ es₂ id t hes hget
    subst hes
    rw [run_append]
    refine get?_run_of_not_overwrites _ es₂ ?_ hget
    rintro ⟨es₁', e, es₂', rfl, hid⟩
    refine h ⟨es₁ ++ es₁', e, es₂', by simp, ?_⟩
    rwa [run_append]
  · intro i j a a' agent agent' call call' hij hi hj hresult hresult'
    have hkeeps := keeps_run store servants owners es
    obtain ⟨b, hscan, hcommitted⟩ := (hkeeps.accounts i a agent call hi).successful hresult
    obtain ⟨b', hscan', hcommitted'⟩ := (hkeeps.accounts j a' agent' call' hj).successful hresult'
    exact ⟨b, b', hscan, hscan', hcommitted.disjoint hcommitted' hij h⟩

/-- A call that creates one task, up to the last message. -/
def announcing (secret id : String) (payload : Bytes) : List CreateRequest :=
  [.init secret none, .header secret ⟨id, [], []⟩, .data secret payload, .dataComplete secret]

/-- A message arrives, and the call and its submission go as far as they can. -/
def serveOne (i : Nat) (request : CreateRequest) : List DepotEvent :=
  [.deliver i (.ok request), .advance i, .work i, .advance i]

/-- Two calls that announce the same task, each before the other one ends, are both answered as
successful. The task that was stored first, and released, is overwritten by the other one, which is
not released. -/
theorem overwritten_after_release :
    let d := start (.empty 0) [(⟨"session", "parent"⟩, ⟨"secret"⟩, 10)] [0, 0]
    let es₁ := (announcing "secret" "X" [1]).flatMap (serveOne 0) ++
      (announcing "secret" "X" [2]).flatMap (serveOne 1) ++
      serveOne 0 (.lastTask "secret") ++ [.finalize 0 ⟨"secret"⟩]
    let es₂ := serveOne 1 (.lastTask "secret")
    ((d.run es₁).store.tasks.get? "X").map (fun t => (t.payload, t.finalized)) = some ([1], true) ∧
      ((d.run (es₁ ++ es₂)).store.tasks.get? "X").map (fun t => (t.payload, t.finalized)) =
        some ([2], false) ∧
      (d.run (es₁ ++ es₂)).calls.map (fun c => c.2.result?) =
        [some (.ok .successful), some (.ok .successful)] := by
  decide +kernel

end Depot

end Sidecar
