import Sidecar.Proofs.Session.Script
import Sidecar.Proofs.Session.Waking

/-!
# How a call fares beside others

A call whose stream arrives bit by bit, while other calls move and store what they add, fares as it
would alone over the store it began with: `CreateCall.Fares` and `ResultCall.Fares` say how far it
has got of its whole stream. What the others store matters to it only through the ids of its batch.
Where the store still agrees with the one at the beginning on these (`Store.AgreesOn`), every move
either gets the call on, or stores what it adds, or gives the answer of one pass over the whole
stream (`Call.Fares.moves`).
-/

namespace Sidecar

/-! ## Stores that agree -/

/-- The stores have the same limit, and the same tasks under the ids. -/
structure Store.AgreesOn (store store' : Store) (ids : List String) : Prop where
  limit : store'.limit = store.limit
  tasks : ∀ id ∈ ids, store'.tasks.get? id = store.tasks.get? id

namespace Store.AgreesOn

variable {store store' : Store} {ids ids' : List String} {b : Batch}

theorem symm (h : store.AgreesOn store' ids) : store'.AgreesOn store ids :=
  ⟨h.limit.symm, fun id hid => (h.tasks id hid).symm⟩

theorem mono (h : store.AgreesOn store' ids) (hsub : ∀ id ∈ ids', id ∈ ids) :
    store.AgreesOn store' ids' :=
  ⟨h.limit, fun id hid => h.tasks id (hsub id hid)⟩

/-- Stores that agree on the ids of a batch admit it alike. -/
theorem admits (h : store.AgreesOn store' b.ids) (hadmits : store.Admits b) : store'.Admits b :=
  ⟨hadmits.distinct, fun id hid => (h.tasks id hid).trans (hadmits.fresh id hid),
    fun t ht => h.limit ▸ hadmits.fits t ht⟩

/-- What a submission has checked of its batch holds of stores alike that agree on its ids. -/
theorem sound {i : Intake} {identity : Identity} {ended : Bool} {qs : TaskQueues}
    (h : store.AgreesOn store' b.ids) (hfollows : i.Follows identity b ended qs)
    (hsound : i.Sound store) : i.Sound store' := by
  have hmem : ∀ id ∈ i.staged.map (·.header.id) ++ i.current.toList.map (·.header.id),
      id ∈ b.ids := by
    intro id hid
    rcases List.mem_append.1 hid with hid | hid
    · rw [hfollows.staged_eq, List.map_map] at hid
      obtain ⟨t, ht, rfl⟩ := List.mem_map.1 hid
      exact List.mem_map.2 ⟨t, List.mem_of_mem_take ht, rfl⟩
    · obtain ⟨u, hu, rfl⟩ := List.mem_map.1 hid
      obtain ⟨t, ht, hheader⟩ := hfollows.getElem?_current (Option.mem_toList.1 hu)
      exact List.mem_map.2 ⟨t, List.mem_of_getElem? ht, by rw [hheader]⟩
  refine ⟨hsound.distinct, fun id hid => ?_, fun t ht => ?_, fun u hu => ?_⟩
  · exact (h.tasks id (hmem id hid)).trans (hsound.fresh id hid)
  · rw [isTooLong, h.limit]
    exact hsound.stagedFits t ht
  · rw [isTooLong, h.limit]
    exact hsound.currentFits u hu

/-- What the submission of a call has found out holds of stores alike that agree on the ids of its
batch. -/
theorem checked {call : CreateCall} {identity : Identity} (h : store.AgreesOn store' b.ids)
    (hserves : call.Serves identity b) (hchecked : call.Checked store b) :
    call.Checked store' b := by
  have hwork := hserves.work
  unfold CreateCall.Submits at hwork
  unfold CreateCall.Checked at hchecked ⊢
  split at hchecked
  next i hi =>
    simp only [hi] at hwork ⊢
    exact h.sound hwork.2.2.2 hchecked
  next => exact fun hadmits => hchecked (h.symm.admits hadmits)
  next => exact h.admits hchecked
  next => trivial
  next => trivial
  next => trivial

end Store.AgreesOn

/-! ## Streams that have begun -/

/-- What has arrived of a stream decides its call. -/
def CallStream.Decides (token : Token) : CallStream → Prop
  | create items ended =>
    ended = true ∨ ∀ state b, scanRequests token .idle .empty items ≠ .undecided state b
  | result items ended =>
    ended = true ∨ ∀ state d, scanResults token .idle .empty items ≠ .undecided state d

/-- The stream is the beginning of what the worker plays. -/
def Script.Begins : Script → CallStream → Prop
  | create items, .create got ended => got <+: items ∧ (ended = true → got = items)
  | result items, .result got ended => got <+: items ∧ (ended = true → got = items)
  | create _, .result _ _ | result _, .create _ _ => False

/-- A beginning that is decided decides the whole. -/
theorem scanStream_eq_of_isPrefix {σ β ρ γ ι : Type} {examine : σ → β → ι → Verdict σ β ρ γ}
    {state : σ} {asked : β} {got items : List ι} (hgot : got <+: items)
    (hdecided : ∀ state' asked', scanStream examine state asked got ≠ .undecided state' asked') :
    scanStream examine state asked items = scanStream examine state asked got := by
  obtain ⟨left, rfl⟩ := hgot
  rw [scanStream_append]
  split
  next hundecided => exact absurd hundecided (hdecided _ _)
  next hresult => exact hresult.symm
  next hasked => exact hasked.symm

/-! ## Creation calls -/

namespace CreateCall

section Scanning

variable {token : Token} {state : CreationState} {b whole : Batch}
  {items got : List (Except Cause CreateRequest)}

/-- Reading on takes no id back. -/
theorem ids_prefix_of_scanRequests (h : scanRequests token state b items = .complete whole) :
    b.ids <+: whole.ids := by
  induction items generalizing state b with
  | nil => cases h
  | cons item items ih =>
    rw [scanRequests_cons] at h
    split at h
    next => cases h
    next =>
      cases h
      exact List.prefix_rfl
    next step next _ _ =>
      refine List.IsPrefix.trans ?_ (ih h)
      rw [b.ids_add step]
      exact List.prefix_append _ _

theorem scanRequests_eq_of_isPrefix (hgot : got <+: items)
    (hdecided : ∀ state' b', scanRequests token state b got ≠ .undecided state' b') :
    scanRequests token state b items = scanRequests token state b got :=
  scanStream_eq_of_isPrefix hgot hdecided

theorem scanRequests_eq_complete_of_isPrefix (hgot : got <+: items)
    (h : scanRequests token state b got = .complete whole) :
    scanRequests token state b items = .complete whole := by
  rw [scanRequests_eq_of_isPrefix hgot, h]
  rw [h]
  exact nofun

end Scanning

/-- A creation call beside others, whose stream has arrived in part: it has stored nothing yet, and
what its submission has found out holds of the store at the beginning; or its batch is stored, and
that store would have admitted it; or it is over, with the outcome of one pass. -/
inductive Fares (agent : Agent) (store : Store) (items got : List (Except Cause CreateRequest))
    (ended : Bool) (call : CreateCall) : Prop where
  | underway {b : Batch}
      (h : call.Pursues agent ended (scanRequests agent.token .idle .empty got) b)
      (hstored : ¬ call.HasStored)
      (hchecked : ∀ whole, scanRequests agent.token .idle .empty items = .complete whole →
        call.Checked store b)
  | stored {b : Batch} (h : call.Pursues agent ended (scanRequests agent.token .idle .empty got) b)
      (hstored : call.HasStored)
      (hverdict : scanRequests agent.token .idle .empty got = .complete b)
      (hadmits : store.Admits b)
  | done (hphase : call.phase = .done (agent.createSequentially store items).1)
      (hwork : call.work = .absent)
      (hdecides : (CallStream.create got ended).Decides agent.token)

variable {agent : Agent} {store : Store} {call : CreateCall} {b whole : Batch} {ended : Bool}
  {items got : List (Except Cause CreateRequest)}

/-- What a call makes of what has arrived it also makes of what arrives later. -/
theorem Pursues.arrive (h : call.Pursues agent ended (scanRequests agent.token .idle .empty got) b)
    (more : List (Except Cause CreateRequest)) (ended' : Bool) :
    ({ call with inbox := ⟨call.inbox.arrivals ++ more.map .ofItem, ended'⟩ } : CreateCall).Pursues
      agent ended' (scanRequests agent.token .idle .empty (got ++ more)) b := by
  obtain ⟨items, hinbox, hverdict⟩ := h.stream
  refine ⟨h.serves.setInbox _, items ++ more, by simp [hinbox], ?_⟩
  unfold prospect at hverdict ⊢
  simp only
  split at hverdict
  next hterminal =>
    rw [if_pos hterminal]
    exact (scanRequests_eq_complete_of_isPrefix (List.prefix_append got more) hverdict.symm).symm
  next hterminal =>
    rw [if_neg hterminal]
    unfold scanRequests at hverdict ⊢
    rw [scanStream_append, scanStream_append, hverdict]

/-- The ids of what a call has read are ids of its whole batch. -/
theorem Pursues.ids_subset
    (h : call.Pursues agent ended (scanRequests agent.token .idle .empty got) b)
    (hgot : got <+: items)
    (hwhole : scanRequests agent.token .idle .empty items = .complete whole) :
    ∀ id ∈ b.ids, id ∈ whole.ids := by
  obtain ⟨left, rfl⟩ := hgot
  obtain ⟨items, -, hverdict⟩ := (h.arrive left ended).stream
  rw [hwhole, prospect] at hverdict
  split at hverdict
  next =>
    cases hverdict
    exact fun id hid => hid
  next => exact fun id hid => (ids_prefix_of_scanRequests hverdict).subset hid

/-- An element of the stream arrives. -/
theorem Fares.deliver (h : call.Fares agent store items got ended)
    (item : Except Cause CreateRequest) :
    ({ call with inbox := call.inbox.deliver (.ofItem item) } : CreateCall).Fares agent store items
      (got ++ [item]) ended := by
  have hinbox : ∀ {b : Batch},
      call.Pursues agent ended (scanRequests agent.token .idle .empty got) b →
      call.inbox.deliver (.ofItem item) =
        ⟨call.inbox.arrivals ++ [item].map Arrival.ofItem, ended⟩ := by
    intro b h
    obtain ⟨_, hinbox, -⟩ := h.stream
    rw [Inbox.deliver, hinbox]
    rfl
  cases h with
  | underway h hstored hchecked =>
    rw [hinbox h]
    exact .underway (h.arrive [item] ended) hstored hchecked
  | stored h hstored hverdict hadmits =>
    rw [hinbox h]
    have hverdict' := scanRequests_eq_complete_of_isPrefix (List.prefix_append got [item]) hverdict
    exact .stored (h.arrive [item] ended) hstored hverdict' hadmits
  | done hphase hwork hdecides =>
    refine .done hphase hwork ?_
    rcases hdecides with hended | hdecided
    · exact .inl hended
    · refine .inr ?_
      rwa [scanRequests_eq_of_isPrefix (List.prefix_append got [item]) hdecided]

/-- The stream ends. -/
theorem Fares.finish (h : call.Fares agent store items got ended) :
    ({ call with inbox := call.inbox.finish } : CreateCall).Fares agent store items got true := by
  have hinbox : call.inbox.finish =
      ⟨call.inbox.arrivals ++ ([] : List (Except Cause CreateRequest)).map Arrival.ofItem,
        true⟩ := by
    simp [Inbox.finish]
  have harrive : ∀ {b : Batch},
      call.Pursues agent ended (scanRequests agent.token .idle .empty got) b →
      ({ call with inbox := call.inbox.finish } : CreateCall).Pursues agent true
        (scanRequests agent.token .idle .empty got) b := by
    intro b h
    have := h.arrive [] true
    rwa [List.append_nil, ← hinbox] at this
  cases h with
  | underway h hstored hchecked => exact .underway (harrive h) hstored hchecked
  | stored h hstored hverdict hadmits => exact .stored (harrive h) hstored hverdict hadmits
  | done hphase hwork _ => exact .done hphase hwork (.inl rfl)

end CreateCall

/-! ## Result calls -/

namespace ResultCall

/-- A result call beside others, whose stream has arrived in part: it has stored nothing yet, and
what its submission has found out holds of the store at the beginning; or its result is stored, and
that store would have accepted it; or it is over, with the outcome of one pass. -/
inductive Fares (agent : Agent) (store : Store) (items got : List (Except Cause ResultRequest))
    (ended : Bool) (call : ResultCall) : Prop where
  | underway {d : Deposit}
      (h : call.Pursues agent ended (scanResults agent.token .idle .empty got) d)
      (hstored : ¬ call.HasStored) (hchecked : call.Checked store d)
  | stored {d : Deposit} {token : String}
      (h : call.Pursues agent ended (scanResults agent.token .idle .empty got) d)
      (hstored : call.HasStored)
      (hverdict : scanResults agent.token .idle .empty got = .complete (d, token))
      (haccepts : store.Accepts d)
  | done (hphase : call.phase = .done (agent.sendSequentially store items).1)
      (hwork : call.work = .absent)
      (hdecides : (CallStream.result got ended).Decides agent.token)

variable {agent : Agent} {store : Store} {call : ResultCall} {d : Deposit} {ended : Bool}
  {items got : List (Except Cause ResultRequest)}

theorem scanResults_eq_of_isPrefix {token : Token} (hgot : got <+: items)
    (hdecided : ∀ state d, scanResults token .idle .empty got ≠ .undecided state d) :
    scanResults token .idle .empty items = scanResults token .idle .empty got :=
  scanStream_eq_of_isPrefix hgot hdecided

theorem scanResults_eq_complete_of_isPrefix {token : Token} {found : Deposit × String}
    (hgot : got <+: items) (h : scanResults token .idle .empty got = .complete found) :
    scanResults token .idle .empty items = .complete found := by
  rw [scanResults_eq_of_isPrefix hgot, h]
  rw [h]
  exact nofun

/-- What a call makes of what has arrived it also makes of what arrives later. -/
theorem Pursues.arrive (h : call.Pursues agent ended (scanResults agent.token .idle .empty got) d)
    (more : List (Except Cause ResultRequest)) (ended' : Bool) :
    ({ call with inbox := ⟨call.inbox.arrivals ++ more.map .ofItem, ended'⟩ } : ResultCall).Pursues
      agent ended' (scanResults agent.token .idle .empty (got ++ more)) d := by
  obtain ⟨items, hinbox, hverdict⟩ := h.stream
  refine ⟨h.serves.setInbox _, items ++ more, by simp [hinbox], ?_⟩
  cases hphase : call.phase with
  | waiting token =>
    simp only [prospect, hphase] at hverdict ⊢
    exact (scanResults_eq_complete_of_isPrefix (List.prefix_append got more) hverdict.symm).symm
  | reading | done =>
    simp only [prospect, hphase] at hverdict ⊢
    unfold scanResults at hverdict ⊢
    rw [scanStream_append, scanStream_append, hverdict]

/-- An element of the stream arrives. -/
theorem Fares.deliver (h : call.Fares agent store items got ended)
    (item : Except Cause ResultRequest) :
    ({ call with inbox := call.inbox.deliver (.ofItem item) } : ResultCall).Fares agent store items
      (got ++ [item]) ended := by
  have hinbox : ∀ {d : Deposit},
      call.Pursues agent ended (scanResults agent.token .idle .empty got) d →
      call.inbox.deliver (.ofItem item) =
        ⟨call.inbox.arrivals ++ [item].map Arrival.ofItem, ended⟩ := by
    intro d h
    obtain ⟨_, hinbox, -⟩ := h.stream
    rw [Inbox.deliver, hinbox]
    rfl
  cases h with
  | underway h hstored hchecked =>
    rw [hinbox h]
    exact .underway (h.arrive [item] ended) hstored hchecked
  | stored h hstored hverdict haccepts =>
    rw [hinbox h]
    have hverdict' := scanResults_eq_complete_of_isPrefix (List.prefix_append got [item]) hverdict
    exact .stored (h.arrive [item] ended) hstored hverdict' haccepts
  | done hphase hwork hdecides =>
    refine .done hphase hwork ?_
    rcases hdecides with hended | hdecided
    · exact .inl hended
    · refine .inr ?_
      rwa [scanResults_eq_of_isPrefix (List.prefix_append got [item]) hdecided]

/-- The stream ends. -/
theorem Fares.finish (h : call.Fares agent store items got ended) :
    ({ call with inbox := call.inbox.finish } : ResultCall).Fares agent store items got true := by
  have hinbox : call.inbox.finish =
      ⟨call.inbox.arrivals ++ ([] : List (Except Cause ResultRequest)).map Arrival.ofItem,
        true⟩ := by
    simp [Inbox.finish]
  have harrive : ∀ {d : Deposit},
      call.Pursues agent ended (scanResults agent.token .idle .empty got) d →
      ({ call with inbox := call.inbox.finish } : ResultCall).Pursues agent true
        (scanResults agent.token .idle .empty got) d := by
    intro d h
    have := h.arrive [] true
    rwa [List.append_nil, ← hinbox] at this
  cases h with
  | underway h hstored hchecked => exact .underway (harrive h) hstored hchecked
  | stored h hstored hverdict haccepts => exact .stored (harrive h) hstored hverdict haccepts
  | done hphase hwork _ => exact .done hphase hwork (.inl rfl)

end ResultCall

/-! ## Calls of either kind -/

namespace Call

/-- The submission of the call has put what the call adds into the store. -/
def HasStored : Call → Prop
  | create c => c.HasStored
  | result c => c.HasStored

/-- A call beside others, which plays a script and of whose stream a part has arrived. -/
def Fares (agent : Agent) (store : Store) (call : Call) (script : Script) (stream : CallStream) :
    Prop :=
  match call, script, stream with
  | create c, .create items, .create got ended => c.Fares agent store items got ended
  | result c, .result items, .result got ended => c.Fares agent store items got ended
  | _, _, _ => False

/-- What a move of a call beside others comes to, where the agent has created other tasks meanwhile
and the store holds what others have added: the call gets on; or what it adds is put in; or it
answers with the outcome of one pass, and the agent remembers the tasks it has created. -/
inductive Advances (agent : Agent) (store : Store) (script : Script) (stream : CallStream)
    (call : Call) (created : List CreatedTask) (now : Store) : Agent × Backend × Call → Prop where
  | goesOn {call' : Call} (hfares : call'.Fares agent store script stream)
      (hbefore : ¬ call.HasStored) (hafter : ¬ call'.HasStored) (hresult : call'.result? = none) :
      Advances agent store script stream call created now
        ({ agent with created }, .ofStore now, call')
  | stores {call' : Call} {g : Gain} (hfares : call'.Fares agent store script stream)
      (hgain : script.gain? agent store = some g) (hbefore : ¬ call.HasStored)
      (hafter : call'.HasStored) (hresult : call'.result? = none) :
      Advances agent store script stream call created now
        ({ agent with created }, .ofStore (now.gain agent.identity g), call')
  | answers {call' : Call} (hfares : call'.Fares agent store script stream)
      (hgained : call.HasStored ∨ script.gain? agent store = none)
      (hafter : ¬ call'.HasStored) (hresult : call'.result? = some (script.outcome agent store)) :
      Advances agent store script stream call created now
        ({ agent with created := created ++ script.created agent store }, .ofStore now, call')

/-- A call that has moved plays its script on. -/
theorem Advances.fares {agent : Agent} {store now : Store} {script : Script} {stream : CallStream}
    {call : Call} {created : List CreatedTask} {r : Agent × Backend × Call}
    (h : Advances agent store script stream call created now r) :
    r.2.2.Fares agent store script stream := by
  cases h with
  | goesOn hfares _ _ _ => exact hfares
  | stores hfares _ _ _ _ => exact hfares
  | answers hfares _ _ _ => exact hfares

/-- A call answers, and the agent remembers what it has created. -/
theorem Advances.answer {agent : Agent} {store now : Store} {script : Script} {stream : CallStream}
    {call call' : Call} {created created' : List CreatedTask}
    (hcreated : created' = created ++ script.created agent store)
    (hfares : call'.Fares agent store script stream)
    (hgained : call.HasStored ∨ script.gain? agent store = none) (hafter : ¬ call'.HasStored)
    (hresult : call'.result? = some (script.outcome agent store)) :
    Advances agent store script stream call created now
      ({ agent with created := created' }, .ofStore now, call') := by
  subst hcreated
  exact .answers hfares hgained hafter hresult

end Call

namespace CreateCall

variable {agent : Agent} {store now : Store} {call : CreateCall} {b : Batch} {ended : Bool}
  {items got : List (Except Cause CreateRequest)} {created : List CreatedTask}

/-- A call without a submission has stored nothing. -/
theorem not_hasStored_of_absent (hwork : call.work = .absent) : ¬ call.HasStored := by
  rintro ⟨stored, hstored⟩
  rw [hwork] at hstored
  cases hstored

/-- A stream that breaks off, or runs out, has the outcome of one pass, and adds nothing. -/
theorem outcome_of_decides {result : CreateResult}
    (hbegins : (Script.create items).Begins (.create got ended))
    (h : (scanRequests agent.token .idle .empty got).Decides "CreateTask" ended result) :
    (agent.createSequentially store items).1 = result ∧
      (Script.create items).gain? agent store = none ∧
      (CallStream.create got ended).Decides agent.token := by
  obtain ⟨hgot, hwhole⟩ := hbegins
  have hsame : _ → scanRequests agent.token .idle .empty items =
      scanRequests agent.token .idle .empty got := scanRequests_eq_of_isPrefix hgot
  simp only [Agent.createSequentially, Script.gain?, CallStream.Decides]
  generalize hverdict : scanRequests agent.token .idle .empty got = verdict at h hsame
  cases h with
  | decided result =>
    have hdecided : ∀ state b, (.decided result : CreateVerdict) ≠ .undecided state b := by
      intro state b heq
      cases heq
    rw [hsame hdecided]
    exact ⟨rfl, rfl, .inr hdecided⟩
  | runsOut state b hended =>
    obtain rfl := hwhole hended
    rw [hverdict]
    exact ⟨rfl, rfl, .inl hended⟩

/-- Beside others a call moves as it would alone over the store at the beginning, if the store now
agrees with that one on the ids of its batch. -/
theorem Fares.moves (hrun : agent.stopped = false)
    (h : call.Fares agent store items got ended)
    (hbegins : (Script.create items).Begins (.create got ended))
    (hagrees : ¬ call.HasStored → ∀ whole,
      scanRequests agent.token .idle .empty items = .complete whole → store.AgreesOn now whole.ids)
    {r : Agent × Backend × CreateCall}
    (hmove : call.Moves { agent with created } (.ofStore now) r) :
    Call.Advances agent store (.create items) (.create got ended) (.create call) created now
      (r.1, r.2.1, .create r.2.2) := by
  cases h with
  | @underway b hpursues hstored hchecked =>
    have hpursues' : call.Pursues { agent with created } ended
        (scanRequests agent.token .idle .empty got) b := ⟨hpursues.serves, hpursues.stream⟩
    cases hpursues'.turn hrun hmove with
    | @goesOn b' call' hnext _ hafter hkept =>
      have hnext' : call'.Pursues agent ended (scanRequests agent.token .idle .empty got) b' :=
        ⟨hnext.serves, hnext.stream⟩
      refine .goesOn (.underway hnext' hafter ?_) hstored hafter ?_
      · intro whole hwhole
        have hag := hagrees hstored whole hwhole
        have hnow := (hag.mono (hpursues.ids_subset hbegins.1 hwhole)).checked hpursues.serves
          (hchecked whole hwhole)
        exact (hag.mono (hnext'.ids_subset hbegins.1 hwhole)).symm.checked hnext'.serves
          (hkept hnow)
      · rw [Call.result?, hnext.serves.result?_eq_none]
        rfl
    | breaksOff hdecides _ =>
      obtain ⟨houtcome, hgain, hdecided⟩ := outcome_of_decides hbegins hdecides
      exact .answer (by simp [Script.created, hgain]) (.done (by rw [houtcome]; rfl) rfl hdecided)
        (.inr hgain) (not_hasStored_of_absent rfl) (by rw [Script.outcome, houtcome]; rfl)
    | @stores call' hnext hverdict _ hafter hkept =>
      have hwhole := scanRequests_eq_complete_of_isPrefix hbegins.1 hverdict
      have hag := hagrees hstored b hwhole
      have hadmits : store.Admits b :=
        hag.symm.admits (hkept (hag.checked hpursues.serves (hchecked b hwhole)))
      refine .stores (g := .batch b) (.stored ⟨hnext.serves, hnext.stream⟩ hafter hverdict hadmits)
        ?_ hstored hafter ?_
      · simp only [Script.gain?, hwhole, hadmits, if_true]
      · rw [Call.result?, hnext.serves.result?_eq_none]
        rfl
    | replies _ hbefore => exact absurd hbefore hstored
    | refuses hverdict _ hkept =>
      have hwhole := scanRequests_eq_complete_of_isPrefix hbegins.1 hverdict
      have hag := hagrees hstored b hwhole
      have hadmits : ¬ store.Admits b := fun hadmits =>
        hkept (hag.checked hpursues.serves (hchecked b hwhole)) (hag.admits hadmits)
      have houtcome : (agent.createSequentially store items).1 = .ok (.nonSuccessful b.ids) := by
        simp only [Agent.createSequentially, hwhole, hadmits, if_false]
      have hgain : (Script.create items).gain? agent store = none := by
        simp only [Script.gain?, hwhole, hadmits, if_false]
      refine .answer (by simp [Script.created, hgain]) (.done (by rw [houtcome]; rfl) rfl (.inr ?_))
        (.inr hgain) (not_hasStored_of_absent rfl) (by rw [Script.outcome, houtcome]; rfl)
      intro state b' heq
      rw [hverdict] at heq
      cases heq
  | @stored b hpursues hstored hverdict hadmits =>
    have hpursues' : call.Pursues { agent with created } ended
        (scanRequests agent.token .idle .empty got) b := ⟨hpursues.serves, hpursues.stream⟩
    cases hpursues'.turn hrun hmove with
    | goesOn _ hbefore _ _ => exact absurd hstored hbefore
    | breaksOff _ hbefore => exact absurd hstored hbefore
    | stores _ _ hbefore _ _ => exact absurd hstored hbefore
    | replies _ _ =>
      have hwhole := scanRequests_eq_complete_of_isPrefix hbegins.1 hverdict
      have houtcome : (agent.createSequentially store items).1 = .ok .successful := by
        simp only [Agent.createSequentially, hwhole, hadmits, if_true]
      have hcreated : (Script.create items).created agent store = b.created := by
        simp only [Script.created, Script.gain?, hwhole, hadmits, if_true]
        rfl
      refine .answer (by rw [hcreated]) (.done (by rw [houtcome]; rfl) rfl (.inr ?_))
        (.inl hstored) (not_hasStored_of_absent rfl) (by rw [Script.outcome, houtcome]; rfl)
      intro state b' heq
      rw [hverdict] at heq
      cases heq
    | refuses _ hbefore _ => exact absurd hstored hbefore
  | done hphase hwork _ =>
    have hover : (Call.create call).IsOver := ⟨⟨_, hphase⟩, hwork⟩
    exact absurd (.create hmove) (hover.not_moves _ _ _)

/-- A call that cannot move is over, or what has arrived does not decide it. -/
theorem Fares.rests (hrun : agent.stopped = false) (h : call.Fares agent store items got ended)
    (hidle : ∀ r, ¬ call.Moves { agent with created } (.ofStore now) r) :
    (call.phase = .done (agent.createSequentially store items).1 ∧
        (CallStream.create got ended).Decides agent.token) ∨
      (call.result? = none ∧ ¬ (CallStream.create got ended).Decides agent.token) := by
  have hrests : ∀ {b : Batch},
      call.Pursues agent ended (scanRequests agent.token .idle .empty got) b →
      ended = false ∧ ¬ call.HasStored ∧
        scanRequests agent.token .idle .empty got = .undecided call.machine.state b := by
    intro b hpursues
    have hpursues' : call.Pursues { agent with created } ended
        (scanRequests agent.token .idle .empty got) b := ⟨hpursues.serves, hpursues.stream⟩
    obtain ⟨-, hended, -, hunstored, -, hverdict⟩ := hpursues'.rests hrun hidle
    exact ⟨hended, hunstored, hverdict⟩
  cases h with
  | underway hpursues _ _ =>
    obtain ⟨hended, -, hverdict⟩ := hrests hpursues
    refine .inr ⟨hpursues.serves.result?_eq_none, ?_⟩
    rintro (hended' | hdecided)
    · rw [hended] at hended'
      cases hended'
    · exact hdecided _ _ hverdict
  | stored hpursues hstored _ _ => exact absurd hstored (hrests hpursues).2.1
  | done hphase _ hdecides => exact .inl ⟨hphase, hdecides⟩

end CreateCall

namespace ResultCall

variable {agent : Agent} {store now : Store} {call : ResultCall} {d : Deposit} {ended : Bool}
  {items got : List (Except Cause ResultRequest)} {created : List CreatedTask}

/-- A call without a submission has stored nothing. -/
theorem not_hasStored_of_absent (hwork : call.work = .absent) : ¬ call.HasStored := by
  intro hstored
  rw [HasStored, hwork] at hstored
  cases hstored

/-- A stream that breaks off, or runs out, has the outcome of one pass, and adds nothing. -/
theorem outcome_of_decides {result : ResultResult}
    (hbegins : (Script.result items).Begins (.result got ended))
    (h : (scanResults agent.token .idle .empty got).Decides "SendResult" ended result) :
    (agent.sendSequentially store items).1 = result ∧
      (Script.result items).gain? agent store = none ∧
      (CallStream.result got ended).Decides agent.token := by
  obtain ⟨hgot, hwhole⟩ := hbegins
  have hsame : _ → scanResults agent.token .idle .empty items =
      scanResults agent.token .idle .empty got := scanResults_eq_of_isPrefix hgot
  simp only [Agent.sendSequentially, Script.gain?, CallStream.Decides]
  generalize hverdict : scanResults agent.token .idle .empty got = verdict at h hsame
  cases h with
  | decided result =>
    have hdecided : ∀ state d, (.decided result : ResultVerdict) ≠ .undecided state d := by
      intro state d heq
      cases heq
    rw [hsame hdecided]
    exact ⟨rfl, rfl, .inr hdecided⟩
  | runsOut state d hended =>
    obtain rfl := hwhole hended
    rw [hverdict]
    exact ⟨rfl, rfl, .inl hended⟩

/-- Beside others a call moves as it would alone over the store at the beginning, if the limit on
payloads is still the same. -/
theorem Fares.moves (hrun : agent.stopped = false)
    (h : call.Fares agent store items got ended)
    (hbegins : (Script.result items).Begins (.result got ended)) (hlimit : now.limit = store.limit)
    {r : Agent × Backend × ResultCall}
    (hmove : call.Moves { agent with created } (.ofStore now) r) :
    Call.Advances agent store (.result items) (.result got ended) (.result call) created now
      (r.1, r.2.1, .result r.2.2) := by
  have haccepts : ∀ d, now.Accepts d ↔ store.Accepts d := by
    intro d
    rw [Store.Accepts, Store.Accepts, hlimit]
  cases h with
  | @underway d hpursues hstored hchecked =>
    have hpursues' : call.Pursues { agent with created } ended
        (scanResults agent.token .idle .empty got) d := ⟨hpursues.serves, hpursues.stream⟩
    have hnow := Session.checked_of_limit_eq hchecked hlimit.symm
    cases hpursues'.turn hrun hmove with
    | goesOn hnext _ hafter hkept =>
      refine .goesOn (.underway ⟨hnext.serves, hnext.stream⟩ hafter
        (Session.checked_of_limit_eq (hkept hnow) hlimit)) hstored hafter ?_
      rw [Call.result?, hnext.serves.result?_eq_none]
      rfl
    | breaksOff hdecides _ =>
      obtain ⟨houtcome, hgain, hdecided⟩ := outcome_of_decides hbegins hdecides
      exact .answer (by simp [Script.created, hgain]) (.done (by rw [houtcome]; rfl) rfl hdecided)
        (.inr hgain) (not_hasStored_of_absent rfl) (by rw [Script.outcome, houtcome]; rfl)
    | stores hnext hverdict _ hafter hkept =>
      have hwhole := scanResults_eq_complete_of_isPrefix hbegins.1 hverdict
      have hfits := (haccepts d).1 (hkept hnow)
      refine .stores (g := .result d) (.stored ⟨hnext.serves, hnext.stream⟩ hafter hverdict hfits)
        ?_ hstored hafter ?_
      · simp only [Script.gain?, hwhole, hfits, if_true]
      · rw [Call.result?, hnext.serves.result?_eq_none]
        rfl
    | replies _ hbefore => exact absurd hbefore hstored
    | @refuses token hverdict _ hkept =>
      have hwhole := scanResults_eq_complete_of_isPrefix hbegins.1 hverdict
      have hfits : ¬ store.Accepts d := fun hfits => hkept hnow ((haccepts d).2 hfits)
      have houtcome : (agent.sendSequentially store items).1 = .ok (.error token resultFailed) := by
        simp only [Agent.sendSequentially, hwhole, hfits, if_false]
      have hgain : (Script.result items).gain? agent store = none := by
        simp only [Script.gain?, hwhole, hfits, if_false]
      refine .answer (by simp [Script.created, hgain]) (.done (by rw [houtcome]; rfl) rfl (.inr ?_))
        (.inr hgain) (not_hasStored_of_absent rfl) (by rw [Script.outcome, houtcome]; rfl)
      intro state b' heq
      rw [hverdict] at heq
      cases heq
  | @stored d token hpursues hstored hverdict hfits =>
    have hpursues' : call.Pursues { agent with created } ended
        (scanResults agent.token .idle .empty got) d := ⟨hpursues.serves, hpursues.stream⟩
    cases hpursues'.turn hrun hmove with
    | goesOn _ hbefore _ _ => exact absurd hstored hbefore
    | breaksOff _ hbefore => exact absurd hstored hbefore
    | stores _ _ hbefore _ _ => exact absurd hstored hbefore
    | replies _ _ =>
      have hwhole := scanResults_eq_complete_of_isPrefix hbegins.1 hverdict
      have houtcome : (agent.sendSequentially store items).1 = .ok .ok := by
        simp only [Agent.sendSequentially, hwhole, hfits, if_true]
      have hcreated : (Script.result items).created agent store = [] :=
        (Script.sendSequentially_eq items).1
      refine .answer (by rw [hcreated, List.append_nil])
        (.done (by rw [houtcome]; rfl) rfl (.inr ?_)) (.inl hstored) (not_hasStored_of_absent rfl)
        (by rw [Script.outcome, houtcome]; rfl)
      intro state b' heq
      rw [hverdict] at heq
      cases heq
    | refuses _ hbefore _ => exact absurd hstored hbefore
  | done hphase hwork _ =>
    have hover : (Call.result call).IsOver := ⟨⟨_, hphase⟩, hwork⟩
    exact absurd (.result hmove) (hover.not_moves _ _ _)

/-- A call that cannot move is over, or what has arrived does not decide it. -/
theorem Fares.rests (hrun : agent.stopped = false) (h : call.Fares agent store items got ended)
    (hidle : ∀ r, ¬ call.Moves { agent with created } (.ofStore now) r) :
    (call.phase = .done (agent.sendSequentially store items).1 ∧
        (CallStream.result got ended).Decides agent.token) ∨
      (call.result? = none ∧ ¬ (CallStream.result got ended).Decides agent.token) := by
  have hrests : ∀ {d : Deposit},
      call.Pursues agent ended (scanResults agent.token .idle .empty got) d →
      ended = false ∧ ¬ call.HasStored ∧
        scanResults agent.token .idle .empty got = .undecided call.machine.state d := by
    intro d hpursues
    have hpursues' : call.Pursues { agent with created } ended
        (scanResults agent.token .idle .empty got) d := ⟨hpursues.serves, hpursues.stream⟩
    obtain ⟨-, hended, -, hunstored, -, hverdict⟩ := hpursues'.rests hrun hidle
    exact ⟨hended, hunstored, hverdict⟩
  cases h with
  | underway hpursues _ _ =>
    obtain ⟨hended, -, hverdict⟩ := hrests hpursues
    refine .inr ⟨hpursues.serves.result?_eq_none, ?_⟩
    rintro (hended' | hdecided)
    · rw [hended] at hended'
      cases hended'
    · exact hdecided _ _ hverdict
  | stored hpursues hstored _ _ => exact absurd hstored (hrests hpursues).2.1
  | done hphase _ hdecides => exact .inl ⟨hphase, hdecides⟩

end ResultCall

namespace Call

variable {agent : Agent} {store now : Store} {call : Call} {script : Script} {stream : CallStream}
  {created : List CreatedTask}

/-- Beside others a call moves as it would alone over the store at the beginning, as long as the
others add nothing under the ids of its batch. -/
theorem Fares.moves (hrun : agent.stopped = false) (h : call.Fares agent store script stream)
    (hbegins : script.Begins stream) (hlimit : now.limit = store.limit)
    (hagrees : ¬ call.HasStored → ∀ id ∈ script.ids agent.token,
      now.tasks.get? id = store.tasks.get? id)
    {r : Agent × Backend × Call} (hmove : call.Moves { agent with created } (.ofStore now) r) :
    Advances agent store script stream call created now r := by
  unfold Fares at h
  split at h
  next c items got ended =>
    cases hmove with
    | create hmove =>
      refine h.moves hrun hbegins ?_ hmove
      intro hstored whole hwhole
      refine ⟨hlimit, fun id hid => hagrees hstored id ?_⟩
      simpa only [Script.ids, hwhole] using hid
  next c items got ended =>
    cases hmove with
    | result hmove => exact h.moves hrun hbegins hlimit hmove
  next => cases h

/-- A call with an outcome is over. -/
theorem Fares.isOver (h : call.Fares agent store script stream) (hresult : call.result? ≠ none) :
    call.IsOver := by
  unfold Fares at h
  split at h
  next c items got ended =>
    cases h with
    | underway hpursues _ _ => simp [result?, hpursues.serves.result?_eq_none] at hresult
    | stored hpursues _ _ _ => simp [result?, hpursues.serves.result?_eq_none] at hresult
    | done hphase hwork _ => exact ⟨⟨_, hphase⟩, hwork⟩
  next c items got ended =>
    cases h with
    | underway hpursues _ _ => simp [result?, hpursues.serves.result?_eq_none] at hresult
    | stored hpursues _ _ _ => simp [result?, hpursues.serves.result?_eq_none] at hresult
    | done hphase hwork _ => exact ⟨⟨_, hphase⟩, hwork⟩
  next => cases h

/-- A call that moves has no outcome yet. -/
theorem Fares.result?_eq_none_of_moves (h : call.Fares agent store script stream)
    {agent' : Agent} {backend : Backend} {r : Agent × Backend × Call}
    (hmove : call.Moves agent' backend r) : call.result? = none :=
  Classical.byContradiction fun hresult => (h.isOver hresult).not_moves _ _ _ hmove

/-- A call that cannot move is over, with the outcome of one pass, or what has arrived does not
decide it. -/
theorem Fares.rests (hrun : agent.stopped = false) (h : call.Fares agent store script stream)
    (hidle : ∀ r, ¬ call.Moves { agent with created } (.ofStore now) r) :
    (call.result? = some (script.outcome agent store) ∧ stream.Decides agent.token) ∨
      (call.result? = none ∧ ¬ stream.Decides agent.token) := by
  unfold Fares at h
  split at h
  next c items got ended =>
    rcases h.rests hrun fun r hmove => hidle _ (.create hmove) with ⟨hphase, hdecides⟩ |
      ⟨hresult, hdecides⟩
    · exact .inl ⟨by simp [result?, CreateCall.result?, hphase, Script.outcome], hdecides⟩
    · exact .inr ⟨by rw [result?, hresult]; rfl, hdecides⟩
  next c items got ended =>
    rcases h.rests hrun fun r hmove => hidle _ (.result hmove) with ⟨hphase, hdecides⟩ |
      ⟨hresult, hdecides⟩
    · exact .inl ⟨by simp [result?, ResultCall.result?, hphase, Script.outcome], hdecides⟩
    · exact .inr ⟨by rw [result?, hresult]; rfl, hdecides⟩
  next => cases h

/-- A creation call that begins has nothing of its stream. -/
theorem fares_create_start (agent : Agent) (store : Store)
    (items : List (Except Cause CreateRequest)) :
    (create .start).Fares agent store (.create items) (.create [] false) :=
  .underway (CreateCall.pursues_start agent [] false)
    (by simp [CreateCall.HasStored, CreateCall.start]) fun _ _ => trivial

/-- A result call that begins has nothing of its stream. -/
theorem fares_result_start (agent : Agent) (store : Store)
    (items : List (Except Cause ResultRequest)) :
    (Call.result .start).Fares agent store (.result items) (.result [] false) :=
  .underway ⟨ResultCall.serves_start agent.identity _, [], rfl, rfl⟩
    (by simp [ResultCall.HasStored, ResultCall.start]) trivial

end Call

end Sidecar
