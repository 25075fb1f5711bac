import Mathlib.Algebra.GroupWithZero.Nat
import Mathlib.Data.List.Nodup
import Sidecar.Proofs.Creation.Distinct
import Sidecar.Proofs.Session.Heeding

/-!
# The books of created tasks

A task that was created waits in the agent's list until it is released. The store learns of a task
from the submission of a call, the list from the call's answer, and a finalize request clears the
list and marks the tasks: three pieces of state that different operations touch.

The entries of a session (`Session.entries`) are what it has in hand to release: the ids in the
list, and the ids that a call has stored and will still answer for. What can happen is described by
what it does to the entries: a move stores the tasks it makes entries for (`Session.Enters`), an
event takes away the entries of the calls it breaks off (`Session.perm_entries_accept`), and a
finalize request those of what it releases (`Session.Books.finalize_ok`). An id that gets no second
entry has one entry, or was lost, exactly while its task is stored and not released
(`Session.AccountsFor`).
-/

namespace Sidecar

/-! ## What is announced and released -/

/-- How many tasks a creation stream announces before it says that there are no more. -/
def announcedOn : List (Except Cause CreateRequest) → Nat
  | [] => 0
  | .error _ :: rest => announcedOn rest
  | .ok request :: rest =>
    match CreateStep.ofKind? request.kind with
    | some .lastTask => 0
    | some (.header _) => announcedOn rest + 1
    | none | some (.init _) | some (.data _) | some .dataComplete => announcedOn rest

/-- How many tasks a call has announced that was answered as successful, given what has arrived on
its stream. -/
def CallStream.announcedBy : Option CallStream → CallResult → Nat
  | some (.create items _), .create (.ok ⟨_, .successful⟩) => announcedOn items
  | _, _ => 0

/-- How many tasks a finalize request has released. -/
def FinalizeReply.released (reply : FinalizeReply) : Nat :=
  match reply.kind with
  | .finalized count => count
  | .error _ => 0

/-- A task is stored under the id and not released. -/
def Store.Awaits (store : Store) (id : String) : Prop :=
  ∃ t, store.tasks.get? id = some t ∧ t.finalized = false

/-- What is examined without deciding anything asks for something. -/
theorem ofKind?_of_examineRequest {token : Token} {state next : CreationState}
    {item : Except Cause CreateRequest} {step : CreateStep}
    (h : examineRequest token state item = .ok (step, next)) :
    ∃ request, item = .ok request ∧ CreateStep.ofKind? request.kind = some step := by
  unfold examineRequest at h
  split at h
  · cases h
  next request =>
    split at h
    · cases h
    · split at h
      · cases h
      next found hfound =>
        split at h
        · cases h
        · cases h
          exact ⟨request, rfl, hfound⟩

/-- A complete batch has as many tasks as its stream announces. -/
theorem length_ids_of_scanRequests {token : Token} {state : CreationState} {b b' : Batch}
    {items : List (Except Cause CreateRequest)}
    (h : scanRequests token state b items = .complete b') :
    b'.ids.length = b.ids.length + announcedOn items := by
  induction items generalizing state b with
  | nil => cases h
  | cons item items ih =>
    rw [scanRequests_cons] at h
    split at h
    next => cases h
    next next hexamine =>
      obtain ⟨request, rfl, hstep⟩ := ofKind?_of_examineRequest hexamine
      cases h
      simp [announcedOn, hstep]
    next step next hnot hexamine =>
      obtain ⟨request, rfl, hstep⟩ := ofKind?_of_examineRequest hexamine
      rw [ih h, b.ids_add step, List.length_append]
      cases step with
      | lastTask => exact absurd rfl hnot
      | header header =>
        simp only [announcedOn, hstep, List.length_singleton]
        omega
      | init | data | dataComplete => simp [announcedOn, hstep]

/-- A complete batch brings about as many tasks as its stream announces. -/
theorem length_created_of_scanRequests {token : Token} {b : Batch}
    {items : List (Except Cause CreateRequest)}
    (h : scanRequests token .idle .empty items = .complete b) :
    b.created.length = announcedOn items := by
  have hlength := length_ids_of_scanRequests h
  rw [← b.map_taskId_created, List.length_map] at hlength
  simpa [Batch.ids] using hlength

/-- An answer that is not successful counts for nothing. -/
theorem CallStream.announcedBy_eq_zero {stream : Option CallStream} {result : CallResult}
    (h : ∀ echo, result ≠ .create (.ok ⟨echo, .successful⟩)) :
    announcedBy stream result = 0 := by
  unfold announcedBy
  split
  next echo => exact absurd rfl (h echo)
  next => rfl

/-- Answers of which none is successful count for nothing. -/
theorem sum_announcedBy_eq_zero {streams : String → Option CallStream}
    {results : List (String × CallResult)}
    (h : ∀ a ∈ results, ∀ echo, a.2 ≠ .create (.ok ⟨echo, .successful⟩)) :
    (results.map fun a => CallStream.announcedBy (streams a.1) a.2).sum = 0 := by
  rw [List.sum_eq_zero_iff_forall_eq_nat]
  intro n hn
  obtain ⟨a, ha, rfl⟩ := List.mem_map.1 hn
  exact CallStream.announcedBy_eq_zero (h a ha)

/-- What a batch adds to the tasks that are not released is the batch. -/
theorem Store.awaits_addTasks (store : Store) (b : Batch) (identity : Identity) (id : String) :
    (store.addTasks (b.stored identity)).Awaits id ↔ store.Awaits id ∨ id ∈ b.ids := by
  by_cases hid : id ∈ b.ids
  · rw [← b.ids_stored identity] at hid
    obtain ⟨t, ht, hget⟩ := store.exists_get?_addTasks hid
    obtain ⟨announced, -, rfl⟩ := List.mem_map.1 ht
    rw [b.ids_stored identity] at hid
    exact iff_of_true ⟨_, hget, rfl⟩ (.inr hid)
  · have hkept : (store.addTasks (b.stored identity)).tasks.get? id = store.tasks.get? id :=
      store.get?_addTasks_of_not_mem (by rwa [b.ids_stored])
    simp [Awaits, hkept, hid]

/-- What is released is not awaited any more. -/
theorem Store.awaits_release {store : Store} {created : List CreatedTask} {id : String} :
    ({ store with tasks := created.foldl release store.tasks } : Store).Awaits id ↔
      store.Awaits id ∧ id ∉ created.map (·.taskId) := by
  simp only [Awaits, get?_foldl_release]
  cases store.tasks.get? id <;> simp

/-- What is released stays stored. -/
theorem Store.contains_release {store : Store} {created : List CreatedTask} {id : String}
    (h : store.tasks.contains id = true) :
    (created.foldl release store.tasks).contains id = true := by
  obtain ⟨t, ht⟩ := (Dict.contains_iff _ _).1 h
  exact (Dict.contains_iff _ _).2 ⟨_, by rw [get?_foldl_release, ht]; rfl⟩

/-! ## Entries -/

/-- Does the event break off the call that has the name? A call is broken off by a stop, when it is
dropped, and when another one is opened under its name. -/
def SessionEvent.breaksOff : SessionEvent → String → Bool
  | .stop, _ => true
  | .abort n, name | .openCreate n, name | .openResult n, name => n = name
  | .createItem _ _, _ | .resultItem _ _, _ | .finish _, _ => false

namespace Session

/-- The ids of the tasks that the calls have stored and will still answer for. After a stop they do
not answer for them any more. -/
def heldIds (s : Session) : List String :=
  if s.agent.stopped then [] else s.calls.flatMap fun c => c.2.held.map (·.taskId)

/-- The ids a session has in hand to release: those that count as created, and those held. -/
def entries (s : Session) : List String := s.agent.created.map (·.taskId) ++ s.heldIds

/-- The entries an event takes away: what is held by the calls it breaks off. -/
def lostAt (s : Session) (e : SessionEvent) : List String :=
  if s.agent.stopped then []
  else (s.calls.filter fun c => e.breaksOff c.1).flatMap fun c => c.2.held.map (·.taskId)

/-- The ids that have an entry already and get another one by a move. -/
def enteredAgain (s t : Session) : List String :=
  s.entries.filter fun id => s.entries.count id < t.entries.count id

/-- Where the ids of these tasks were lost, an id has one entry, or is one of them, exactly if its
task is stored and not released. -/
structure AccountsFor (s : Session) (lost : List String) (id : String) : Prop where
  once : s.entries.count id ≤ 1
  awaits : s.backend.store.Awaits id ↔ id ∈ s.entries ∨ id ∈ lost
  apart : id ∈ s.entries → id ∉ lost

/-- What is stored under the entries of a session, and how many tasks were released or count as
created: those that were announced by calls that were answered as successful. -/
structure Books (s : Session) (answers : List (Option CallStream × CallResult))
    (replies : List FinalizeReply) : Prop where
  stored : ∀ id ∈ s.entries, s.backend.store.tasks.contains id = true
  count : (replies.map FinalizeReply.released).sum + s.agent.created.length =
    (answers.map fun a => CallStream.announcedBy a.1 a.2).sum

/-- What a move means for the entries: it makes some, if it stores their tasks, and takes none away.
As many tasks count as created in addition as were announced by the calls it answers. -/
structure Enters (s t : Session) (streams : String → Option CallStream) (ids : List String) :
    Prop where
  distinct : ids.Nodup
  entries : t.entries.Perm (ids ++ s.entries)
  awaits : ∀ id, t.backend.store.Awaits id ↔ s.backend.store.Awaits id ∨ id ∈ ids
  contains : ∀ id, t.backend.store.tasks.contains id =
    (s.backend.store.tasks.contains id || decide (id ∈ ids))
  count : t.agent.created.length = s.agent.created.length +
    ((t.newResults s).map fun a => CallStream.announcedBy (streams a.1) a.2).sum

end Session

/-! ## What a call holds -/

namespace Call

variable {agent : Agent} {store : Store} {call : Call}

/-- A call that heeds its stream and cannot move holds nothing. -/
theorem Heeds.held_eq_nil {stream : CallStream} (h : call.Heeds agent stream)
    (hrun : agent.stopped = false) (hidle : ∀ r, ¬ call.Moves agent (.ofStore store) r) :
    call.held = [] := by
  cases call with
  | result c => rfl
  | create c =>
    cases stream with
    | result items ended => cases h
    | create items ended =>
      rcases h with hover | ⟨b, hpursues⟩
      · exact hover.held_eq_nil
      · have hrests := hpursues.rests hrun fun r hmove => hidle _ (.create hmove)
        exact held_of_not_hasStored hrests.2.2.2.1

/-- The ids that the submission of a creation call has read, or has stored, differ. -/
def IdsDiffer : Call → Prop
  | create c => c.IdsDiffer
  | result _ => True

theorem IdsDiffer.moves (h : call.IdsDiffer) {r : Agent × Backend × Call}
    (hmove : call.Moves agent (.ofStore store) r) : r.2.2.IdsDiffer := by
  cases hmove with
  | create hmove => exact CreateCall.IdsDiffer.moves h hmove
  | result hmove => trivial

/-- What a call holds are tasks of different ids. -/
theorem IdsDiffer.nodup_held (h : call.IdsDiffer) : (call.held.map (·.taskId)).Nodup := by
  cases call with
  | result c => exact List.nodup_nil
  | create c =>
    simp only [IdsDiffer, CreateCall.IdsDiffer] at h
    simp only [held]
    split
    next created hwork => simpa [hwork] using h
    all_goals exact List.nodup_nil

end Call

namespace Session

variable {s t : Session} {agent : Agent} {streams : String → Option CallStream}
  {answers : List (Option CallStream × CallResult)} {replies : List FinalizeReply}
  {ids : List String} {id : String}

/-- Every event keeps the ids of a submission different. -/
theorem idsDiffer_accept (h : ∀ c ∈ s.calls, c.2.IdsDiffer) (e : SessionEvent) :
    ∀ c ∈ (s.accept e).calls, c.2.IdsDiffer := by
  refine forall_calls_accept h trivial trivial ?_ ?_ ?_
  · exact fun _ _ _ c hc => CreateCall.IdsDiffer.of_work hc rfl
  · exact fun _ _ _ c _ => trivial
  · rintro (c | c) hc
    · exact CreateCall.IdsDiffer.of_work hc rfl
    · trivial

/-- Every move keeps the ids of a submission different. -/
theorem idsDiffer_moves (h : ∀ c ∈ s.calls, c.2.IdsDiffer) {store : Store}
    (hbackend : s.backend = .ofStore store) (hmove : s.Moves t) :
    ∀ c ∈ t.calls, c.2.IdsDiffer := by
  cases hmove with
  | @call i name call call' a b hcall hmove =>
    rw [hbackend] at hmove
    intro c hc
    rcases mem_set hc with rfl | ⟨j, -, hj⟩
    · exact Call.IdsDiffer.moves (h _ (List.mem_of_getElem? hcall)) hmove
    · exact h c (List.mem_of_getElem? hj)

/-! ## Moves -/

/-- What is gathered from a list of which one element was replaced. -/
theorem exists_perm_flatMap_set {α β : Type} {l : List α} {i : Nat} {x : α} (h : l[i]? = some x)
    (f : α → List β) : ∃ rest, ∀ y, ((l.set i y).flatMap f).Perm (f y ++ rest) := by
  obtain ⟨hi, -⟩ := List.getElem?_eq_some_iff.1 h
  refine ⟨(l.take i).flatMap f ++ (l.drop (i + 1)).flatMap f, fun y => ?_⟩
  rw [List.set_eq_take_append_cons_drop, if_pos hi, List.flatMap_append, List.flatMap_cons]
  exact List.perm_append_comm_assoc _ _ _

/-- What is held before and after one call has moved differs by what that call holds. -/
theorem exists_perm_heldIds {i : Nat} {name : String} {call call' : Call}
    (hs : s.agent.stopped = false) (ht : t.agent.stopped = false)
    (hcall : s.calls[i]? = some (name, call)) (hcalls : t.calls = s.calls.set i (name, call')) :
    ∃ rest, s.heldIds.Perm (call.held.map (·.taskId) ++ rest) ∧
      t.heldIds.Perm (call'.held.map (·.taskId) ++ rest) := by
  obtain ⟨rest, hrest⟩ := exists_perm_flatMap_set hcall fun c => c.2.held.map (·.taskId)
  have hbefore := hrest (name, call)
  rw [set_of_getElem?_eq_some hcall] at hbefore
  refine ⟨rest, ?_, ?_⟩
  · simpa [heldIds, hs] using hbefore
  · simpa [heldIds, ht, hcalls] using hrest (name, call')

/-- The move of a call makes entries for the tasks it stores, and for nothing else. -/
theorem Heeds.exists_enters (h : s.Heeds agent streams) (hrun : agent.stopped = false)
    (hdiffer : ∀ c ∈ s.calls, c.2.IdsDiffer) (hmove : s.Moves t) :
    ∃ ids, s.Enters t streams ids := by
  have hdiffer' : ∀ c ∈ t.calls, c.2.IdsDiffer := by
    obtain ⟨store, hbackend⟩ := h.backend
    exact idsDiffer_moves hdiffer hbackend hmove
  have hheeds' := h.moves hrun hmove
  obtain ⟨created, hagent⟩ := h.agent
  obtain ⟨created', hagent'⟩ := hheeds'.agent
  obtain ⟨i, name, call, call', stream, store, hcall, hstream, hresult, hbackend, hcalls, hturn⟩ :=
    h.exists_turn hrun hmove
  obtain ⟨rest, hbefore, hafter⟩ := exists_perm_heldIds (by rw [hagent]; exact hrun)
    (by rw [hagent']; exact hrun) hcall hcalls
  obtain ⟨tagent, tbackend, tcalls⟩ := t
  cases hcalls
  have hnew : Session.newResults ⟨tagent, tbackend, s.calls.set i (name, call')⟩ s =
      (call'.result?.map fun result => (name, result)).toList :=
    newResults_set h.names hcall hresult tagent tbackend
  have hnothing : (∀ echo, call'.result? ≠ some (.create (.ok ⟨echo, .successful⟩))) →
      ((Session.newResults ⟨tagent, tbackend, s.calls.set i (name, call')⟩ s).map
        fun a => CallStream.announcedBy (streams a.1) a.2).sum = 0 := by
    intro hne
    refine sum_announcedBy_eq_zero fun a ha echo heq => ?_
    rw [hnew, Option.mem_toList, Option.map_eq_some_iff] at ha
    obtain ⟨result, hresult', rfl⟩ := ha
    exact hne echo (hresult'.trans (congrArg some heq))
  generalize hr : (tagent, tbackend, call') = r at hturn
  cases hturn with
  | @keeps store' _ _ htasks hheld hheld' hne =>
    cases hr
    rw [hheld] at hbefore
    rw [hheld'] at hafter
    refine ⟨[], List.nodup_nil, ?_, fun id => ?_, fun id => ?_, ?_⟩
    · exact (hafter.trans hbefore.symm).append_left _
    · simp [hbackend, Backend.ofStore, Store.Awaits, htasks]
    · simp [hbackend, Backend.ofStore, htasks]
    · rw [hnothing hne, Nat.add_zero]
  | @stores b _ _ hheld hheld' hnone =>
    cases hr
    have hmem : (name, call') ∈ s.calls.set i (name, call') :=
      List.mem_set (List.getElem?_eq_some_iff.1 hcall).1 _
    have hnodup := (hdiffer' _ hmem).nodup_held
    rw [hheld', b.map_taskId_created] at hafter hnodup
    rw [hheld] at hbefore
    refine ⟨b.ids, hnodup, ?_, fun id => ?_, fun id => ?_, ?_⟩
    · have hheld : (Session.heldIds ⟨s.agent, _, s.calls.set i (name, call')⟩).Perm
          (b.ids ++ s.heldIds) := hafter.trans (hbefore.symm.append_left b.ids)
      exact (hheld.append_left _).trans (List.perm_append_comm_assoc _ _ _)
    · rw [hbackend]
      exact store.awaits_addTasks b _ id
    · rw [hbackend, ← b.ids_stored s.agent.identity]
      exact store.contains_addTasks _ id
    · rw [hnothing (by simp [hnone]), Nat.add_zero]
  | @replies items ended b hitems hverdict hheld =>
    cases hr
    rw [hheld, b.map_taskId_created] at hbefore
    refine ⟨[], List.nodup_nil, ?_, fun id => ?_, fun id => ?_, ?_⟩
    · simp only [entries, List.map_append, b.map_taskId_created, List.append_assoc]
      exact (hafter.append_left b.ids |>.trans hbefore.symm).append_left _
    · simp [hbackend]
    · simp [hbackend]
    · rw [hnew, List.length_append, length_created_of_scanRequests hverdict]
      simp [hstream, hitems, Call.result?, CreateCall.result?, CreateCall.ended,
        CallStream.announcedBy, CreateReply.successful]

/-- Where nothing moves, nothing is held. -/
theorem Heeds.heldIds_eq_nil (h : s.Heeds agent streams) (hrun : agent.stopped = false)
    (hidle : ∀ t, ¬ s.Moves t) : s.heldIds = [] := by
  unfold heldIds
  split
  · rfl
  · rw [List.flatMap_eq_nil_iff]
    rintro ⟨name, call⟩ hmem
    obtain ⟨stream, -, hcall⟩ := h.calls _ hmem
    obtain ⟨created, store, -, -, hnot⟩ := h.not_moves_of_idle hidle hmem
    rw [(hcall.setCreated created).held_eq_nil hrun hnot, List.map_nil]

/-- A move makes entries of what it stores: it keeps the books. -/
theorem Books.enters (h : s.Books answers replies) (henters : s.Enters t streams ids) :
    t.Books (answers ++ (t.newResults s).map fun a => (streams a.1, a.2)) replies := by
  refine ⟨fun id hid => ?_, ?_⟩
  · rw [henters.contains, Bool.or_eq_true, decide_eq_true_eq]
    rcases List.mem_append.1 (henters.entries.mem_iff.1 hid) with hid | hid
    · exact .inr hid
    · exact .inl (h.stored id hid)
  · rw [henters.count, ← Nat.add_assoc, h.count, List.map_append, List.sum_append, List.map_map]
    rfl

/-- What has one entry has one after a move as well, unless it is entered again. -/
theorem Enters.count_le_one_iff (henters : s.Enters t streams ids) (h : s.entries.count id ≤ 1) :
    t.entries.count id ≤ 1 ↔ id ∉ s.enteredAgain t := by
  have hcount : t.entries.count id = ids.count id + s.entries.count id := by
    rw [henters.entries.count_eq, List.count_append]
  have hdistinct : ids.count id ≤ 1 := List.nodup_iff_count_le_one.1 henters.distinct id
  rw [enteredAgain, List.mem_filter, decide_eq_true_eq, ← List.count_pos_iff]
  omega

/-- What is entered is not lost any more. -/
theorem AccountsFor.enters {lost : List String} (h : s.AccountsFor lost id)
    (henters : s.Enters t streams ids) (hagain : id ∉ s.enteredAgain t) :
    t.AccountsFor (lost.filter fun id => id ∉ t.entries) id := by
  have hmem : id ∈ t.entries ↔ id ∈ ids ∨ id ∈ s.entries := by
    rw [henters.entries.mem_iff, List.mem_append]
  refine ⟨(henters.count_le_one_iff h.once).2 hagain, ?_, ?_⟩
  · rw [henters.awaits, h.awaits, List.mem_filter, decide_eq_true_eq, hmem]
    tauto
  · intro hentry hlost
    exact of_decide_eq_true (List.mem_filter.1 hlost).2 hentry

/-! ## Events -/

/-- After an event the calls hold what those held that the event does not break off. -/
theorem heldIds_accept (hrun : s.agent.stopped = false) (e : SessionEvent) :
    (s.accept e).heldIds =
      (s.calls.filter fun c => !e.breaksOff c.1).flatMap fun c => c.2.held.map (·.taskId) := by
  have hmodify : ∀ (name : String) (change : Call → Call),
      (∀ call, (change call).held = call.held) →
        (s.modifyCall name change).heldIds =
          s.calls.flatMap fun c => c.2.held.map (·.taskId) := by
    intro name change hchange
    simp only [heldIds, modifyCall, hrun, Bool.false_eq_true, if_false, List.flatMap_map]
    refine List.flatMap_congr fun c _ => ?_
    split
    · rw [hchange]
    · rfl
  have hopen : ∀ (name : String) (new : Call), new.held = [] →
      (s.openCall name new).heldIds = (s.abort name).heldIds := by
    intro name new hnew
    simp [heldIds, openCall, abort, hrun, hnew]
  cases e with
  | openCreate name | openResult name =>
    rw [Session.accept, hopen name _ rfl]
    simp [heldIds, abort, hrun, SessionEvent.breaksOff, eq_comm]
  | abort name => simp [Session.accept, heldIds, abort, hrun, SessionEvent.breaksOff, eq_comm]
  | createItem name item | resultItem name item | finish name =>
    simp only [SessionEvent.breaksOff, Bool.not_false, List.filter_true]
    exact hmodify name _ fun call => by cases call <;> rfl
  | stop => simp [Session.accept, Session.stop, Agent.stop, heldIds, SessionEvent.breaksOff]

/-- What is held before an event is held after it, or is lost at it. -/
theorem perm_heldIds_accept (s : Session) (e : SessionEvent) :
    s.heldIds.Perm (s.lostAt e ++ (s.accept e).heldIds) := by
  cases hstop : s.agent.stopped with
  | true =>
    have hstop' : (s.accept e).agent.stopped = true := by
      rw [(s.frame_accept e).2]
      split
      · rfl
      · exact hstop
    simp [heldIds, lostAt, hstop, hstop']
  | false =>
    rw [heldIds_accept hstop]
    simp only [heldIds, lostAt, hstop, Bool.false_eq_true, if_false, ← List.flatMap_append]
    exact (List.filter_append_perm _ _).symm.flatMap_right _

/-- No event changes what counts as created. -/
theorem created_accept (s : Session) (e : SessionEvent) :
    (s.accept e).agent.created = s.agent.created := by
  rw [(s.frame_accept e).2]
  split <;> rfl

/-- An event takes away the entries that are lost at it, and no others. -/
theorem perm_entries_accept (s : Session) (e : SessionEvent) :
    s.entries.Perm (s.lostAt e ++ (s.accept e).entries) := by
  rw [entries, entries, created_accept]
  exact ((s.perm_heldIds_accept e).append_left _).trans (List.perm_append_comm_assoc _ _ _)

/-- Where nothing is held, nothing is lost. -/
theorem lostAt_eq_nil (h : s.heldIds = []) (e : SessionEvent) : s.lostAt e = [] := by
  have hperm := s.perm_heldIds_accept e
  rw [h, List.nil_perm, List.append_eq_nil_iff] at hperm
  exact hperm.1

/-- An event keeps the books. -/
theorem Books.accept (h : s.Books answers replies) (e : SessionEvent) :
    (s.accept e).Books answers replies := by
  refine ⟨fun id hid => ?_, ?_⟩
  · rw [(s.frame_accept e).1]
    exact h.stored id ((s.perm_entries_accept e).mem_iff.2 (List.mem_append_right _ hid))
  · rw [created_accept]
    exact h.count

/-- What is held by the calls that an event breaks off is lost. -/
theorem AccountsFor.accept {lost : List String} (h : s.AccountsFor lost id) (e : SessionEvent) :
    (s.accept e).AccountsFor (lost ++ s.lostAt e) id := by
  have hcount : s.entries.count id = (s.lostAt e).count id + (s.accept e).entries.count id := by
    rw [(s.perm_entries_accept e).count_eq, List.count_append]
  have hmem : id ∈ s.entries ↔ id ∈ s.lostAt e ∨ id ∈ (s.accept e).entries := by
    rw [(s.perm_entries_accept e).mem_iff, List.mem_append]
  have honce := h.once
  refine ⟨by omega, ?_, fun hentry hlost => ?_⟩
  · rw [(s.frame_accept e).1, h.awaits, hmem, List.mem_append]
    tauto
  · rcases List.mem_append.1 hlost with hlost | hlost
    · exact h.apart (hmem.2 (.inr hentry)) hlost
    · have := List.count_pos_iff.2 hentry
      have := List.count_pos_iff.2 hlost
      omega

/-! ## Finalize requests -/

/-- A request with the right token releases all that counts as created. -/
theorem Books.finalize_ok (h : s.Books answers replies) {store : Store}
    (hbackend : s.backend = .ofStore store) {request : FinalizeRequest}
    (htoken : s.agent.token.refusal? request.token = none) :
    s.finalizeReply request = ⟨"", .finalized s.agent.created.length⟩ ∧
      s.finalize request = ⟨{ s.agent with created := [] },
        .ofStore { store with tasks := s.agent.created.foldl Store.release store.tasks },
        s.calls⟩ := by
  have hstored : ∀ c ∈ s.agent.created, store.tasks.contains c.taskId = true := by
    intro c hc
    have hentry : c.taskId ∈ s.entries := List.mem_append_left _ (List.mem_map_of_mem hc)
    have := h.stored _ hentry
    rwa [hbackend] at this
  simp only [finalizeReply, Session.finalize, Agent.finalize, htoken, Backend.finalize, hbackend,
    Backend.ofStore, Store.finalize_of_stored hstored, and_self]

/-- A finalize request changes nothing about an agent but what counts as created, and nothing about
the kind of a backend. -/
theorem frame_finalize {store : Store} (hbackend : s.backend = .ofStore store)
    (request : FinalizeRequest) :
    (∃ created, (s.finalize request).agent = { s.agent with created }) ∧
      ∃ store, (s.finalize request).backend = .ofStore store := by
  simp only [Session.finalize, Agent.finalize, Backend.finalize, hbackend, Backend.ofStore]
  cases s.agent.token.refusal? request.token with
  | some refusal => exact ⟨⟨_, rfl⟩, store, rfl⟩
  | none =>
    simp only
    cases (store.finalize s.agent.created).1 with
    | ok count => exact ⟨⟨_, rfl⟩, _, rfl⟩
    | error cause => exact ⟨⟨_, rfl⟩, _, rfl⟩

/-- A finalize request leaves the calls alone. -/
theorem Heeds.finalize (h : s.Heeds agent streams) (request : FinalizeRequest) :
    (s.finalize request).Heeds agent streams := by
  obtain ⟨created, hsame⟩ := h.agent
  obtain ⟨store, hbackend⟩ := h.backend
  obtain ⟨⟨created', hagent⟩, hbackend'⟩ := frame_finalize hbackend request
  exact ⟨h.opened, h.calls, h.names, ⟨created', by rw [hagent, hsame]⟩, hbackend'⟩

/-- A finalize request takes entries away or leaves them. -/
theorem Books.count_entries_finalize_le (h : s.Books answers replies) {store : Store}
    (hbackend : s.backend = .ofStore store) (request : FinalizeRequest) (id : String) :
    (s.finalize request).entries.count id ≤ s.entries.count id := by
  cases htoken : s.agent.token.refusal? request.token with
  | some refusal => exact Nat.le_of_eq (by rw [(finalize_refused htoken).2])
  | none =>
    rw [(h.finalize_ok hbackend htoken).2]
    exact (List.sublist_append_right _ _).count_le id

/-- A finalize request keeps the books. -/
theorem Books.finalize (h : s.Books answers replies) {store : Store}
    (hbackend : s.backend = .ofStore store) (request : FinalizeRequest) :
    (s.finalize request).Books answers (replies ++ [s.finalizeReply request]) := by
  cases htoken : s.agent.token.refusal? request.token with
  | some refusal =>
    obtain ⟨hreply, hsame⟩ := finalize_refused htoken
    rw [hreply, hsame]
    exact ⟨h.stored, by simpa [FinalizeReply.released] using h.count⟩
  | none =>
    obtain ⟨hreply, hnext⟩ := h.finalize_ok hbackend htoken
    rw [hreply, hnext]
    refine ⟨fun id hid => ?_, ?_⟩
    · refine Store.contains_release ?_
      have := h.stored id (List.mem_append_right _ hid)
      rwa [hbackend] at this
    · simpa [FinalizeReply.released] using h.count

/-- What counts as created is released, and has no entry any more: no call holds it as well. -/
theorem AccountsFor.finalize {lost : List String} (hid : s.AccountsFor lost id)
    (h : s.Books answers replies) {store : Store} (hbackend : s.backend = .ofStore store)
    (request : FinalizeRequest) : (s.finalize request).AccountsFor lost id := by
  cases htoken : s.agent.token.refusal? request.token with
  | some refusal =>
    rw [(finalize_refused htoken).2]
    exact hid
  | none =>
    have hnext := (h.finalize_ok hbackend htoken).2
    have hentries : (s.finalize request).entries = s.heldIds := by
      rw [hnext]
      rfl
    have hawaits : (s.finalize request).backend.store.Awaits id ↔
        s.backend.store.Awaits id ∧ id ∉ s.agent.created.map (·.taskId) := by
      rw [hnext, hbackend]
      exact Store.awaits_release
    obtain ⟨honce, hbefore, hapart⟩ := hid
    rw [entries, List.count_append] at honce
    rw [entries, List.mem_append] at hbefore hapart
    refine ⟨by rw [hentries]; omega, ?_, fun hentry => hapart (.inr (hentries ▸ hentry))⟩
    have hnot : id ∈ s.agent.created.map (·.taskId) → id ∉ s.heldIds := by
      rw [← List.count_pos_iff, ← List.count_pos_iff]
      omega
    rw [hawaits, hbefore, hentries]
    tauto

end Session

end Sidecar
