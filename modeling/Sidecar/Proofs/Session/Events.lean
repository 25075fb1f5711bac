import Sidecar.Proofs.Session.Waking

/-!
# What an event does to the calls

An event reaches at most one call, the one it names. `Session.Attends.accept` says so for every
event but a stop: a session that has settled is then one in which at most one call was woken. After
a stop, and at it, the calls are over or have nothing left but to be cancelled
(`Session.Attends.accept_stopped`).
-/

namespace Sidecar

/-- Does the event stop the agent? -/
def SessionEvent.isStop : SessionEvent → Bool
  | stop => true
  | _ => false

namespace Session

variable {s t : Session} {agent : Agent} {limit : Nat}
  {streams streams' : String → Option CallStream}
  {stopped : Bool}

/-! ## Calls and their names -/

/-- Calls of one name are one call. -/
theorem index_unique {calls : List (String × Call)} (hnames : (calls.map Prod.fst).Nodup)
    {i j : Nat} {name : String} {c c' : Call} (hi : calls[i]? = some (name, c))
    (hj : calls[j]? = some (name, c')) : i = j := by
  have hlt : i < (calls.map Prod.fst).length := by
    simpa using (List.getElem?_eq_some_iff.1 hi).1
  refine (List.getElem?_inj hlt hnames).1 ?_
  rw [List.getElem?_map, List.getElem?_map, hi, hj]
  rfl

/-- A call is found by its name. -/
theorem lookup_eq_some_iff {α : Type} {calls : List (String × α)}
    (hnames : (calls.map Prod.fst).Nodup) {name : String} {c : α} :
    calls.lookup name = some c ↔ (name, c) ∈ calls := by
  induction calls with
  | nil => simp
  | cons x calls ih =>
    obtain ⟨n, call⟩ := x
    rw [List.map_cons, List.nodup_cons] at hnames
    rw [Dict.lookup_cons_eq_ite, List.mem_cons]
    by_cases hn : name = n
    · subst hn
      have habsent : (name, c) ∉ calls := fun hmem =>
        hnames.1 (List.mem_map.2 ⟨(name, c), hmem, rfl⟩)
      simp [habsent, eq_comm]
    · simp [hn, ih hnames.2]

theorem call?_eq_some_iff (hnames : (s.calls.map Prod.fst).Nodup) {name : String} {c : Call} :
    s.call? name = some c ↔ (name, c) ∈ s.calls := lookup_eq_some_iff hnames

/-- A call that was changed is there under its name, and the others are as they were. -/
theorem mem_modifyCall {name n : String} {change : Call → Call} {c : Call} :
    (n, c) ∈ (s.modifyCall name change).calls ↔
      ∃ c₀, (n, c₀) ∈ s.calls ∧ c = if n = name then change c₀ else c₀ := by
  simp only [modifyCall, List.mem_map, Prod.mk.injEq, Prod.exists]
  constructor
  · rintro ⟨n₀, c₀, hmem, rfl, rfl⟩
    exact ⟨c₀, hmem, rfl⟩
  · rintro ⟨c₀, hmem, rfl⟩
    exact ⟨n, c₀, hmem, rfl, rfl⟩

theorem names_modifyCall (name : String) (change : Call → Call) :
    (s.modifyCall name change).calls.map Prod.fst = s.calls.map Prod.fst := by
  simp [modifyCall, Function.comp_def]

theorem not_mem_names_abort (name : String) : name ∉ (s.abort name).calls.map Prod.fst := by
  simp [Session.abort]

theorem nodup_names_abort (h : (s.calls.map Prod.fst).Nodup) (name : String) :
    ((s.abort name).calls.map Prod.fst).Nodup := h.sublist (List.filter_sublist.map _)

theorem nodup_names_openCall (h : (s.calls.map Prod.fst).Nodup) (name : String) (call : Call) :
    ((s.openCall name call).calls.map Prod.fst).Nodup := by
  simp only [Session.openCall, List.map_append, List.map_cons, List.map_nil]
  refine List.nodup_append.2 ⟨nodup_names_abort h name, by simp, ?_⟩
  intro a ha b hb hab
  cases List.mem_singleton.1 hb
  exact not_mem_names_abort (s := s) name (hab ▸ ha)

/-- An event keeps the names of the calls different. -/
theorem nodup_names_accept (h : (s.calls.map Prod.fst).Nodup) (e : SessionEvent) :
    ((s.accept e).calls.map Prod.fst).Nodup := by
  cases e with
  | openCreate name | openResult name => exact nodup_names_openCall h name _
  | createItem name item | resultItem name item => exact (names_modifyCall name _).symm ▸ h
  | finish name => exact (names_modifyCall name _).symm ▸ h
  | abort name => exact nodup_names_abort h name
  | stop => exact h

/-! ## What an event does to the calls -/

/-- All calls of a session that has settled are quiet. -/
theorem Attends.quiet (h : s.Attends agent limit streams stopped) {c : String × Call}
    (hc : c ∈ s.calls) : c.2.Quiet := by
  rcases h.calls c hc with hover | ⟨-, hquiet, -⟩
  · exact hover.quiet
  · exact hquiet

/-- A session that has settled is one in which no call was woken. -/
theorem Attends.wakes (h : s.Attends agent limit streams false) : s.Wakes agent limit streams := by
  refine ⟨h.frame, ?_, 0, fun j c _ hj => h.quiet (List.mem_of_getElem? hj)⟩
  intro c hc
  rcases h.calls c hc with hover | ⟨-, -, hstream⟩
  · exact .inl hover
  · exact .inr hstream

/-- A call is changed, and its stream with it. -/
theorem Attends.modifyCall (h : s.Attends agent limit streams false) {name : String}
    {change : Call → Call} {f : CallStream → CallStream}
    (hover : ∀ call, call.IsOver → (change call).IsOver)
    (hfollows : ∀ call stream, call.Follows agent limit stream → call.Quiet →
      (change call).Follows agent limit (f stream))
    (hstreams : ∀ n, streams' n = if name = n then (streams n).map f else streams n) :
    (s.modifyCall name change).Wakes agent limit streams' := by
  have hother : ∀ (j : Nat) (c : String × Call), (s.modifyCall name change).calls[j]? = some c →
      (∀ call, s.calls[j]? ≠ some (name, call)) → c.2.Quiet := by
    intro j c hj hne
    simp only [Session.modifyCall, List.getElem?_map, Option.map_eq_some_iff] at hj
    obtain ⟨⟨n, call⟩, hj, rfl⟩ := hj
    have hn : n ≠ name := fun hn => hne call (hn ▸ hj)
    simp only [hn, if_false]
    exact h.quiet (List.mem_of_getElem? hj)
  refine ⟨⟨h.frame.agent, h.frame.backend, ?_⟩, ?_, ?_⟩
  · rw [names_modifyCall]
    exact h.frame.names
  · rintro ⟨n, call⟩ hc
    obtain ⟨call, hmem, rfl⟩ := mem_modifyCall.1 hc
    simp only [hstreams]
    by_cases hn : n = name
    · subst hn
      simp only [if_true]
      rcases h.calls _ hmem with ho | ⟨-, hquiet, stream, hstream, hf⟩
      · exact .inl (hover _ ho)
      · exact .inr ⟨f stream, by simp [hstream], hfollows _ _ hf hquiet⟩
    · simp only [hn, Ne.symm hn, if_false]
      rcases h.calls _ hmem with ho | ⟨-, -, hstream⟩
      · exact .inl ho
      · exact .inr hstream
  · by_cases hex : ∃ (i : Nat) (call : Call), s.calls[i]? = some (name, call)
    · obtain ⟨i, call, hi⟩ := hex
      refine ⟨i, fun j c hj hc => hother j c hc fun call' hcall' => hj ?_⟩
      exact index_unique h.frame.names hcall' hi
    · exact ⟨0, fun j c _ hc => hother j c hc fun call' hcall' => hex ⟨j, call', hcall'⟩⟩

/-- A call is dropped. -/
theorem Attends.abort (h : s.Attends agent limit streams stopped) {name : String}
    (hstreams : ∀ n, n ≠ name → streams' n = streams n) :
    (s.abort name).Attends agent limit streams' stopped := by
  refine ⟨⟨h.frame.agent, h.frame.backend, nodup_names_abort h.frame.names name⟩, ?_⟩
  intro c hc
  simp only [Session.abort, List.mem_filter, decide_eq_true_eq] at hc
  rcases h.calls c hc.1 with hover | ⟨hs, hquiet, stream, hstream, hf⟩
  · exact .inl hover
  · exact .inr ⟨hs, hquiet, stream, by rw [hstreams _ hc.2, hstream], hf⟩

/-- A call is opened. -/
theorem Attends.openCall (h : s.Attends agent limit streams false) {name : String} {call : Call}
    {stream : CallStream} (hfollows : call.Follows agent limit stream)
    (hstreams : ∀ n, n ≠ name → streams' n = streams n) (hname : streams' name = some stream) :
    (s.openCall name call).Wakes agent limit streams' := by
  have habort := h.abort hstreams
  refine ⟨⟨habort.frame.agent, habort.frame.backend, nodup_names_openCall h.frame.names name call⟩,
    ?_, (s.abort name).calls.length, ?_⟩
  · intro c hc
    rcases List.mem_append.1 hc with hc | hc
    · rcases habort.calls c hc with hover | ⟨-, -, hstream⟩
      · exact .inl hover
      · exact .inr hstream
    · cases List.mem_singleton.1 hc
      exact .inr ⟨stream, hname, hfollows⟩
  · intro j c hj hc
    simp only [Session.openCall] at hc
    rcases Nat.lt_or_gt_of_ne hj with hlt | hgt
    · rw [List.getElem?_append_left hlt] at hc
      exact habort.quiet (List.mem_of_getElem? hc)
    · rw [List.getElem?_eq_none (by simp; omega)] at hc
      cases hc

/-! ## Events -/

/-- What arrives on a creation stream reaches the call. -/
theorem Attends.deliverCreate (h : s.Attends agent limit streams false)
    (hrun : agent.stopped = false) (name : String) (item : Except Cause CreateRequest) :
    (s.deliverCreate name (.ofItem item)).Wakes agent limit
      fun n => (SessionEvent.createItem name item).record n (streams n) := by
  refine h.modifyCall (f := .pushCreate item) ?_ ?_ fun n => rfl
  · intro call hover
    cases call with
    | create c => exact hover
    | result c => exact hover
  · intro call stream hfollows hquiet
    cases call with
    | create c =>
      cases stream with
      | create items ended =>
        obtain ⟨rfl, hinbox, -⟩ := hfollows.create_quiet hquiet hrun
        have := hfollows.create_arrives hquiet hrun [item] false
        simpa [CallStream.pushCreate, hinbox, Inbox.deliver] using this
      | result items ended => cases hfollows
    | result c =>
      cases stream with
      | create items ended => cases hfollows
      | result items ended => exact hfollows

/-- What arrives on a result stream reaches the call. -/
theorem Attends.deliverResult (h : s.Attends agent limit streams false)
    (hrun : agent.stopped = false) (name : String) (item : Except Cause ResultRequest) :
    (s.deliverResult name (.ofItem item)).Wakes agent limit
      fun n => (SessionEvent.resultItem name item).record n (streams n) := by
  refine h.modifyCall (f := .pushResult item) ?_ ?_ fun n => rfl
  · intro call hover
    cases call with
    | create c => exact hover
    | result c => exact hover
  · intro call stream hfollows hquiet
    cases call with
    | create c =>
      cases stream with
      | create items ended => exact hfollows
      | result items ended => cases hfollows
    | result c =>
      cases stream with
      | create items ended => cases hfollows
      | result items ended =>
        obtain ⟨rfl, hinbox, -⟩ := hfollows.result_quiet hquiet hrun
        have := hfollows.result_arrives hquiet hrun [item] false
        simpa [CallStream.pushResult, hinbox, Inbox.deliver] using this

/-- That a stream ends reaches its call. -/
theorem Attends.finishCall (h : s.Attends agent limit streams false)
    (hrun : agent.stopped = false) (name : String) :
    (s.finishCall name).Wakes agent limit
      fun n => (SessionEvent.finish name).record n (streams n) := by
  refine h.modifyCall (f := .finish) ?_ ?_ fun n => rfl
  · intro call hover
    cases call with
    | create c => exact hover
    | result c => exact hover
  · intro call stream hfollows hquiet
    cases call with
    | create c =>
      cases stream with
      | create items ended =>
        obtain ⟨-, hinbox, -⟩ := hfollows.create_quiet hquiet hrun
        have := hfollows.create_arrives hquiet hrun [] true
        simpa [CallStream.finish, Call.finish, hinbox, Inbox.finish] using this
      | result items ended => cases hfollows
    | result c =>
      cases stream with
      | create items ended => cases hfollows
      | result items ended =>
        obtain ⟨-, hinbox, -⟩ := hfollows.result_quiet hquiet hrun
        have := hfollows.result_arrives hquiet hrun [] true
        simpa [CallStream.finish, Call.finish, hinbox, Inbox.finish] using this

/-- An event that is not a stop wakes at most the call it names. -/
theorem Attends.accept (h : s.Attends agent limit streams false) (hrun : agent.stopped = false)
    {e : SessionEvent} (he : e.isStop = false) :
    (s.accept e).Wakes agent limit fun n => e.record n (streams n) := by
  cases e with
  | openCreate name =>
    exact h.openCall (Call.follows_create_start agent limit)
      (fun n hn => by simp [SessionEvent.record, Ne.symm hn]) (by simp [SessionEvent.record])
  | openResult name =>
    exact h.openCall (Call.follows_result_start agent limit)
      (fun n hn => by simp [SessionEvent.record, Ne.symm hn]) (by simp [SessionEvent.record])
  | createItem name item => exact h.deliverCreate hrun name item
  | resultItem name item => exact h.deliverResult hrun name item
  | finish name => exact h.finishCall hrun name
  | abort name =>
    exact (h.abort fun n hn => by simp [SessionEvent.record, Ne.symm hn]).wakes
  | stop => cases he

/-! ## Events at and after a stop -/

/-- What holds of calls that begin, and goes on to hold of a call for which something arrives, holds
of all calls after an event if it did before. -/
theorem forall_calls_accept {P : Call → Prop} {e : SessionEvent} (h : ∀ c ∈ s.calls, P c.2)
    (hcreate : P (.create .start)) (hresult : P (.result .start))
    (hcreateItem : ∀ name item, e = .createItem name item → ∀ c : CreateCall, P (.create c) →
      P (.create { c with inbox := c.inbox.deliver (.ofItem item) }))
    (hresultItem : ∀ name item, e = .resultItem name item → ∀ c : ResultCall, P (.result c) →
      P (.result { c with inbox := c.inbox.deliver (.ofItem item) }))
    (hfinish : ∀ call, P call → P call.finish) : ∀ c ∈ (s.accept e).calls, P c.2 := by
  have hmodify : ∀ (name : String) (change : Call → Call),
      (∀ call, P call → P (change call)) → ∀ c ∈ (s.modifyCall name change).calls, P c.2 := by
    rintro name change hchange ⟨n, call⟩ hc
    obtain ⟨call, hmem, rfl⟩ := mem_modifyCall.1 hc
    simp only
    split
    · exact hchange _ (h _ hmem)
    · exact h _ hmem
  have hopen : ∀ (name : String) (call : Call), P call →
      ∀ c ∈ (s.openCall name call).calls, P c.2 := by
    intro name call hcall c hc
    rcases List.mem_append.1 hc with hc | hc
    · exact h c (List.mem_filter.1 hc).1
    · cases List.mem_singleton.1 hc
      exact hcall
  cases e with
  | openCreate name => exact hopen name _ hcreate
  | openResult name => exact hopen name _ hresult
  | createItem name item =>
    refine hmodify name _ ?_
    rintro (c | c) hcall
    · exact hcreateItem name item rfl c hcall
    · exact hcall
  | resultItem name item =>
    refine hmodify name _ ?_
    rintro (c | c) hcall
    · exact hcall
    · exact hresultItem name item rfl c hcall
  | finish name => exact hmodify name _ hfinish
  | abort name => exact fun c hc => h c (List.mem_filter.1 hc).1
  | stop => exact h

/-- Each call an event leaves in a session was there, or is one that begins. -/
theorem isOver_or_live_accept {e : SessionEvent}
    (h : ∀ c ∈ s.calls, c.2.IsOver ∨ c.2.Live agent) :
    ∀ c ∈ (s.accept e).calls, c.2.IsOver ∨ c.2.Live agent := by
  refine forall_calls_accept (P := fun call => call.IsOver ∨ call.Live agent) h
    (.inr (Call.follows_create_start agent 0).live) (.inr (Call.follows_result_start agent 0).live)
    ?_ ?_ ?_
  · rintro name item - c (hover | ⟨b, hserves⟩)
    · exact .inl hover
    · exact .inr ⟨b, hserves.setInbox _⟩
  · rintro name item - c (hover | ⟨d, hserves⟩)
    · exact .inl hover
    · exact .inr ⟨d, hserves.setInbox _⟩
  · rintro (c | c) (hover | ⟨b, hserves⟩)
    · exact .inl hover
    · exact .inr ⟨b, hserves.setInbox _⟩
    · exact .inl hover
    · exact .inr ⟨b, hserves.setInbox _⟩

/-- No event stores anything by itself, and none but a stop changes the agent. -/
theorem frame_accept (e : SessionEvent) :
    (s.accept e).backend = s.backend ∧
      (s.accept e).agent = if e.isStop then s.agent.stop else s.agent := by
  cases e <;> exact ⟨rfl, rfl⟩

/-- However a session settles at a stop or after it, nothing is stored, and every call that is not
over ends as cancelled. -/
theorem Attends.accept_stopped (h : s.Attends agent limit streams stopped) {e : SessionEvent}
    (hstop : (stopped || e.isStop) = true) (hsettles : (s.accept e).Settles t)
    (streams' : String → Option CallStream) :
    t = { s.accept e with calls := (s.accept e).calls.map fun c => (c.1, c.2.cancel) } ∧
      t.Attends agent limit streams' true := by
  obtain ⟨created, hagent⟩ := h.frame.agent
  obtain ⟨store, hbackend, hlimit⟩ := h.frame.backend
  obtain ⟨hbackend', hagent'⟩ := s.frame_accept e
  have hnow : (s.accept e).agent = { agent with created, stopped := true } := by
    rw [hagent', hagent]
    cases he : e.isStop with
    | true => rfl
    | false =>
      have : stopped = true := by simpa [he] using hstop
      simp [this]
  have hlive : ∀ c ∈ s.calls, c.2.IsOver ∨ c.2.Live (s.accept e).agent := by
    intro c hc
    rcases h.calls c hc with hover | ⟨-, -, stream, -, hfollows⟩
    · exact .inl hover
    · rw [hnow]
      exact .inr hfollows.live
  have hcalls := isOver_or_live_accept (e := e) hlive
  have heq := settles_stopped (by rw [hnow]) (hbackend'.trans hbackend) hcalls hsettles
  refine ⟨heq, ⟨⟨⟨created, ?_⟩, ⟨store, ?_, hlimit⟩, ?_⟩, ?_⟩⟩
  · rw [heq, hnow]
  · rw [heq]
    exact hbackend'.trans hbackend
  · rw [heq, List.map_map]
    exact nodup_names_accept h.frame.names e
  · intro c hc
    rw [heq] at hc
    obtain ⟨c, hmem, rfl⟩ := List.mem_map.1 hc
    exact .inl (Call.isOver_cancel (hcalls c hmem))

end Session

end Sidecar
