import Sidecar.Proofs.Session.Events
import Sidecar.Proofs.Session.Playing

/-!
# Calls that are woven

In a run the events of a log reach a session one after the other, and the calls move in any order
between them (`Session.Runs`). Where scripts that are independent are played, `Session.Weaves` is
the invariant of a run: each call fares as it would alone, what the calls have added so far is in
the store, and the agent has created the tasks of the calls that have answered, in the order of the
answers.
-/

namespace Sidecar

/-- What a log tells has happened to a session that began with an agent and a store, its calls have
moved meanwhile, and these are the answers they have given, in this order. -/
inductive Session.Runs (agent : Agent) (store : Store) :
    List SessionEvent → List (String × CallResult) → Session → Prop where
  | start : Runs agent store [] [] (Session.start agent (.ofStore store))
  | event {log : List SessionEvent} {answers : List (String × CallResult)} {s : Session}
      (e : SessionEvent) (h : Runs agent store log answers s) :
      Runs agent store (log ++ [e]) answers (s.accept e)
  | move {log : List SessionEvent} {answers : List (String × CallResult)} {s t : Session}
      (h : Runs agent store log answers s) (hmove : s.Moves t) :
      Runs agent store log (answers ++ t.newResults s) t

/-- More moves only add answers. -/
theorem Session.Runs.comes {agent : Agent} {store : Store} {log : List SessionEvent}
    {answers : List (String × CallResult)} {s t : Session} (h : s.Runs agent store log answers)
    (hcomes : s.Comes t) : ∃ more, t.Runs agent store log (answers ++ more) := by
  induction hcomes with
  | refl => exact ⟨[], by simpa using h⟩
  | tail _ hmove ih =>
    obtain ⟨more, hruns⟩ := ih
    exact ⟨_, by simpa using hruns.move hmove⟩

/-- Every log has a run, even one in which no call moves. -/
theorem Session.exists_runs (agent : Agent) (store : Store) (log : List SessionEvent) :
    ∃ s : Session, s.Runs agent store log [] := by
  have hall : ∀ (log before : List SessionEvent) (s : Session), s.Runs agent store before [] →
      ∃ t : Session, t.Runs agent store (before ++ log) [] := by
    intro log
    induction log with
    | nil => exact fun before s h => ⟨s, by simpa using h⟩
    | cons e log ih =>
      intro before s h
      obtain ⟨t, ht⟩ := ih (before ++ [e]) (s.accept e) (h.event e)
      exact ⟨t, by simpa using ht⟩
  exact hall log [] _ .start

/-- The tasks that a call of this name adds to those the agent has created. -/
def createdBy (agent : Agent) (store : Store) (scripts : List (String × Script)) (name : String) :
    List CreatedTask :=
  (scripts.lookup name).elim [] (Script.created agent store)

/-! ## Calls by their names -/

namespace Session

variable {s : Session}

/-- A call that has moved is found under its name. -/
theorem lookup_set {calls : List (String × Call)} (hnames : (calls.map Prod.fst).Nodup) {i : Nat}
    {name : String} {call : Call} (hcall : calls[i]? = some (name, call)) (call' : Call)
    (n : String) :
    (calls.set i (name, call')).lookup n = if name = n then some call' else calls.lookup n := by
  induction calls generalizing i with
  | nil => cases hcall
  | cons first rest ih =>
    rw [List.map_cons, List.nodup_cons] at hnames
    cases i with
    | zero =>
      cases hcall
      rw [List.set_cons_zero, Dict.lookup_cons_eq_ite, Dict.lookup_cons_eq_ite]
      by_cases hn : name = n
      · simp [hn]
      · simp [hn, Ne.symm hn]
    | succ i =>
      rw [List.getElem?_cons_succ] at hcall
      rw [List.set_cons_succ, Dict.lookup_cons_eq_ite, Dict.lookup_cons_eq_ite,
        ih hnames.2 hcall]
      by_cases hn : n = first.1
      · have hne : name ≠ n := by
          rintro rfl
          refine hnames.1 (List.mem_map.2 ⟨_, List.mem_of_getElem? hcall, hn⟩)
        simp [hne, ← hn]
      · simp [hn]

theorem call?_modifyCall (s : Session) (name : String) (change : Call → Call) (n : String) :
    (s.modifyCall name change).call? n =
      if name = n then (s.call? n).map change else s.call? n := by
  simp only [call?, modifyCall]
  induction s.calls with
  | nil => simp
  | cons first rest ih =>
    rw [List.map_cons, Dict.lookup_cons_eq_ite, Dict.lookup_cons_eq_ite, ih]
    by_cases hn : n = first.1
    · subst hn
      by_cases hname : name = first.1
      · simp [hname]
      · simp [hname, Ne.symm hname]
    · simp [hn]

theorem call?_openCall (s : Session) (name : String) (call : Call) (n : String) :
    (s.openCall name call).call? n = if name = n then some call else s.call? n := by
  simp only [call?, openCall, abort]
  induction s.calls with
  | nil => simp [Dict.lookup_cons_eq_ite, eq_comm]
  | cons first rest ih =>
    rw [Dict.lookup_cons_eq_ite]
    by_cases hfirst : first.1 = name
    · rw [List.filter_cons_of_neg (by simpa using hfirst), ih]
      by_cases hn : name = n
      · simp [hn]
      · simp [hn, hfirst, Ne.symm hn]
    · rw [List.filter_cons_of_pos (by simpa using hfirst), List.cons_append,
        Dict.lookup_cons_eq_ite, ih]
      by_cases hn : n = first.1
      · have hne : name ≠ n := fun h => hfirst (hn ▸ h.symm)
        simp [hne, ← hn]
      · simp [hn]

/-- A call that moves is the only one that can have answered. -/
theorem newResults_set (hnames : (s.calls.map Prod.fst).Nodup) {i : Nat} {name : String}
    {call call' : Call} (hcall : s.calls[i]? = some (name, call)) (hresult : call.result? = none)
    (agent : Agent) (backend : Backend) :
    (⟨agent, backend, s.calls.set i (name, call')⟩ : Session).newResults s =
      (call'.result?.map fun result => (name, result)).toList := by
  have hold : ∀ c ∈ s.calls, (if (s.call? c.1 >>= Call.result?).isSome then none
      else c.2.result?.map fun result => (c.1, result)) = none := by
    intro c hc
    have hfound : s.call? c.1 = some c.2 := (call?_eq_some_iff hnames).2 hc
    rw [hfound]
    cases hr : c.2.result? <;> simp [hr]
  have hmoved : s.call? name = some call :=
    (call?_eq_some_iff hnames).2 (List.mem_of_getElem? hcall)
  have hi := (List.getElem?_eq_some_iff.1 hcall).1
  simp only [newResults]
  rw [List.set_eq_take_append_cons_drop, if_pos hi, List.filterMap_append, List.filterMap_cons,
    List.filterMap_eq_nil_iff.2 fun c hc => hold c (List.mem_of_mem_take hc),
    List.filterMap_eq_nil_iff.2 fun c hc => hold c (List.mem_of_mem_drop hc)]
  simp only [hmoved]
  cases hr : call'.result? with
  | none => simp [hresult]
  | some result => simp [hresult]

end Session

/-! ## Ledgers -/

/-- A ledger with one entry for each call of which there is something to note. -/
structure Session.Records {α : Type} (s : Session) (of : String → Call → α → Prop)
    (ledger : List (String × α)) : Prop where
  names : (ledger.map Prod.fst).Nodup
  mem_iff : ∀ n x, (n, x) ∈ ledger ↔ ∃ c, s.call? n = some c ∧ of n c x

namespace Session.Records

variable {α : Type} {of : String → Call → α → Prop} {ledger : List (String × α)} {s t : Session}
  {name : String} {call call' : Call}

/-- Where no call has changed so that there would be something else to note, the ledger stays as it
is. -/
theorem map (h : s.Records of ledger) {change : String → Call → Call}
    (hcalls : ∀ n, t.call? n = (s.call? n).map (change n))
    (hof : ∀ n c x, of n (change n c) x ↔ of n c x) : t.Records of ledger := by
  refine ⟨h.names, fun n x => ?_⟩
  rw [h.mem_iff]
  simp only [hcalls, Option.map_eq_some_iff]
  constructor
  · rintro ⟨c, hc, hx⟩
    exact ⟨_, ⟨c, hc, rfl⟩, (hof n c x).2 hx⟩
  · rintro ⟨_, ⟨c, hc, rfl⟩, hx⟩
    exact ⟨c, hc, (hof n c x).1 hx⟩

/-- A call changes, and there is nothing else to note of it. -/
theorem set (h : s.Records of ledger)
    (hcalls : ∀ n, t.call? n = if name = n then some call' else s.call? n)
    (hof : ∀ x, of name call' x ↔ ∃ c, s.call? name = some c ∧ of name c x) :
    t.Records of ledger := by
  refine ⟨h.names, fun n x => ?_⟩
  rw [h.mem_iff]
  simp only [hcalls]
  by_cases hn : name = n
  · subst hn
    simp [hof]
  · simp only [if_neg hn]

/-- A call changes, and there is something to note of it. -/
theorem snoc (h : s.Records of ledger)
    (hcalls : ∀ n, t.call? n = if name = n then some call' else s.call? n)
    (hbefore : ∀ c x, s.call? name = some c → ¬ of name c x) {y : α}
    (hafter : ∀ x, of name call' x ↔ x = y) : t.Records of (ledger ++ [(name, y)]) := by
  have hfresh : ∀ x, (name, x) ∉ ledger := by
    intro x hx
    obtain ⟨c, hc, hof⟩ := (h.mem_iff name x).1 hx
    exact hbefore c x hc hof
  refine ⟨?_, fun n x => ?_⟩
  · rw [List.map_append, List.nodup_append]
    refine ⟨h.names, by simp, ?_⟩
    rintro n hn _ hname rfl
    obtain ⟨⟨n', x⟩, hx, rfl⟩ := List.mem_map.1 hn
    cases List.mem_singleton.1 hname
    exact hfresh x hx
  · simp only [hcalls, List.mem_append, List.mem_singleton, Prod.mk.injEq]
    by_cases hn : name = n
    · subst hn
      simp [hfresh, hafter]
    · simp only [if_neg hn, Ne.symm hn, false_and, or_false]
      exact h.mem_iff n x

end Session.Records

/-! ## The invariant -/

/-- The call has added what it adds: it is stored, or the call has answered. -/
def Call.HasGained (call : Call) : Prop := call.HasStored ∨ call.result? ≠ none

/-- Each call of a session plays a script, and fares as it would alone. -/
structure Session.Performs (agent : Agent) (store : Store) (scripts : List (String × Script))
    (log : List SessionEvent) (s : Session) : Prop where
  names : (s.calls.map Prod.fst).Nodup
  opened : ∀ n, (s.call? n).isSome = (streamOf log n).isSome
  fares : ∀ n c, s.call? n = some c → ∃ script stream, (n, script) ∈ scripts ∧
    streamOf log n = some stream ∧ c.Fares agent store script stream

/-- A session in which independent scripts are played, with what the calls have added so far and the
answers they have given, both in their order. -/
structure Session.Weaves (agent : Agent) (store : Store) (scripts : List (String × Script))
    (log : List SessionEvent) (answers : List (String × CallResult))
    (gained : List (String × Gain)) (s : Session) : Prop where
  performs : s.Performs agent store scripts log
  gains : s.Records (fun n c g => c.HasGained ∧ ∃ script, (n, script) ∈ scripts ∧
    script.gain? agent store = some g) gained
  results : s.Records (fun _ c r => c.result? = some r) answers
  backend : s.backend = .ofStore (store.gains agent.identity (gained.map Prod.snd))
  agent : s.agent = { agent with
    created := agent.created ++ answers.flatMap fun a => createdBy agent store scripts a.1 }

variable {agent : Agent} {store : Store} {scripts : List (String × Script)}
  {log log' : List SessionEvent} {answers : List (String × CallResult)}
  {gained : List (String × Gain)} {s t : Session} {name : String} {call call' : Call}
  {script : Script} {stream : CallStream}

/-- A call that has neither stored nor answered has added nothing. -/
theorem Call.not_hasGained (hstored : ¬ call.HasStored) (hresult : call.result? = none) :
    ¬ call.HasGained := fun h => h.elim hstored fun hne => hne hresult

namespace Session.Performs

/-- A call that is not opened yet is not there. -/
theorem call?_eq_none (h : s.Performs agent store scripts log)
    (hnone : streamOf log name = none) : s.call? name = none := by
  have hopened := h.opened name
  rw [hnone] at hopened
  simpa using hopened

/-- A call that plays on has moved, and the others are as they were. -/
theorem set (h : s.Performs agent store scripts log) {i : Nat}
    (hcall : s.calls[i]? = some (name, call)) (hscript : (name, script) ∈ scripts)
    (hstream : streamOf log name = some stream) (hfares : call'.Fares agent store script stream)
    (agent' : Agent) (backend : Backend) :
    (⟨agent', backend, s.calls.set i (name, call')⟩ : Session).Performs agent store scripts
      log := by
  have hlookup : ∀ n, (⟨agent', backend, s.calls.set i (name, call')⟩ : Session).call? n =
      if name = n then some call' else s.call? n := lookup_set h.names hcall call'
  refine ⟨?_, fun n => ?_, fun n c hc => ?_⟩
  · rw [names_set hcall]
    exact h.names
  · rw [hlookup]
    split
    next hn =>
      rw [← hn, hstream]
      rfl
    next => exact h.opened n
  · rw [hlookup] at hc
    split at hc
    next hn =>
      subst hn
      cases hc
      exact ⟨script, stream, hscript, hstream, hfares⟩
    next => exact h.fares n c hc

end Session.Performs

namespace Session.Weaves

theorem start (agent : Agent) (store : Store) (scripts : List (String × Script)) :
    (Session.start agent (.ofStore store)).Weaves agent store scripts [] [] [] := by
  have hnone : ∀ n, (Session.start agent (.ofStore store)).call? n = none := fun n => rfl
  refine ⟨⟨List.nodup_nil, fun n => rfl, ?_⟩, ⟨List.nodup_nil, ?_⟩, ⟨List.nodup_nil, ?_⟩, rfl, ?_⟩
  · intro n c hc
    rw [hnone] at hc
    cases hc
  · intro n g
    simp [hnone]
  · intro n r
    simp [hnone]
  · simp [Session.start]

/-! ### Events -/

/-- What arrives for a call reaches it, and adds nothing. -/
theorem modifyCall (h : s.Weaves agent store scripts log answers gained) {change : Call → Call}
    {f : CallStream → CallStream} (hstored : ∀ c, (change c).HasStored ↔ c.HasStored)
    (hresult : ∀ c, (change c).result? = c.result?)
    (hfares : ∀ c script stream, c.Fares agent store script stream →
      (change c).Fares agent store script (f stream))
    (hstreams : ∀ n, streamOf log' n =
      if name = n then (streamOf log n).map f else streamOf log n) :
    (s.modifyCall name change).Weaves agent store scripts log' answers gained := by
  have hcall : ∀ n, (s.modifyCall name change).call? n =
      (s.call? n).map fun c => if name = n then change c else c := by
    intro n
    rw [call?_modifyCall]
    split
    · rfl
    · simp
  have hsame : ∀ n c, ((if name = n then change c else c).HasStored ↔ c.HasStored) ∧
      (if name = n then change c else c).result? = c.result? := by
    intro n c
    split
    · exact ⟨hstored c, hresult c⟩
    · exact ⟨Iff.rfl, rfl⟩
  refine ⟨⟨(names_modifyCall name change).symm ▸ h.performs.names, ?_, ?_⟩, h.gains.map hcall ?_,
    h.results.map hcall ?_, h.backend, h.agent⟩
  · intro n
    rw [hcall, Option.isSome_map, h.performs.opened, hstreams]
    split
    · rw [Option.isSome_map]
    · rfl
  · intro n c hc
    rw [hcall, Option.map_eq_some_iff] at hc
    obtain ⟨c, hc, rfl⟩ := hc
    obtain ⟨script, stream, hscript, hstream, hf⟩ := h.performs.fares n c hc
    rw [hstreams, hstream]
    split
    · exact ⟨script, f stream, hscript, rfl, hfares _ _ _ hf⟩
    · exact ⟨script, stream, hscript, rfl, hf⟩
  · intro n c g
    rw [Call.HasGained, (hsame n c).1, (hsame n c).2, Call.HasGained]
  · intro n c r
    rw [(hsame n c).2]

/-- A call is opened, and has nothing of its stream. -/
theorem openCall (h : s.Weaves agent store scripts log answers gained)
    (hscript : (name, script) ∈ scripts) (hfares : call.Fares agent store script stream)
    (hstored : ¬ call.HasStored) (hresult : call.result? = none)
    (hbefore : streamOf log name = none)
    (hstreams : ∀ n, streamOf log' n = if name = n then some stream else streamOf log n) :
    (s.openCall name call).Weaves agent store scripts log' answers gained := by
  have hnone := h.performs.call?_eq_none hbefore
  have hcalls := call?_openCall s name call
  refine ⟨⟨nodup_names_openCall h.performs.names name call, ?_, ?_⟩, h.gains.set hcalls ?_,
    h.results.set hcalls ?_, h.backend, h.agent⟩
  · intro n
    rw [hcalls, hstreams]
    split
    · rfl
    · exact h.performs.opened n
  · intro n c hc
    rw [hcalls] at hc
    rw [hstreams]
    split at hc
    next hn =>
      subst hn
      cases hc
      exact ⟨script, stream, hscript, if_pos rfl, hfares⟩
    next hn =>
      rw [if_neg hn]
      exact h.performs.fares n c hc
  · intro g
    simp [hnone, Call.not_hasGained hstored hresult]
  · intro r
    simp [hnone, hresult]

/-- What happens next in the scripts keeps the invariant. -/
theorem accept (h : s.Weaves agent store scripts log answers gained) {e : SessionEvent}
    (hplays : Plays scripts (log ++ [e])) :
    (s.accept e).Weaves agent store scripts (log ++ [e]) answers gained := by
  have hbefore : ∀ {name : String}, eventsOf log name = [] → streamOf log name = none := by
    intro name hnil
    rw [← streamOf_eventsOf, hnil]
    rfl
  obtain ⟨⟨name', script⟩, hscript, hname⟩ := hplays.named e (by simp)
  cases e with
  | openCreate name =>
    cases hname
    obtain ⟨hnil, rest, hevents⟩ := hplays.eventsOf_eq_nil rfl rfl hscript
    cases script with
    | result items => cases hevents
    | create items =>
      refine h.openCall hscript (Call.fares_create_start agent store items) ?_ rfl (hbefore hnil)
        (streamOf_append log _)
      simp [Call.HasStored, CreateCall.HasStored, CreateCall.start]
  | openResult name =>
    cases hname
    obtain ⟨hnil, rest, hevents⟩ := hplays.eventsOf_eq_nil rfl rfl hscript
    cases script with
    | create items => cases hevents
    | result items =>
      refine h.openCall hscript (Call.fares_result_start agent store items) ?_ rfl (hbefore hnil)
        (streamOf_append log _)
      simp [Call.HasStored, ResultCall.HasStored, ResultCall.start]
  | createItem name item =>
    rw [Session.accept, Session.deliverCreate]
    refine h.modifyCall (f := .pushCreate item) ?_ ?_ ?_ (streamOf_append log _)
    · exact fun c => by cases c <;> exact Iff.rfl
    · exact fun c => by cases c <;> rfl
    · intro c script stream hfares
      unfold Call.Fares at hfares
      split at hfares
      next => exact hfares.deliver item
      next => exact hfares
      next => cases hfares
  | resultItem name item =>
    rw [Session.accept, Session.deliverResult]
    refine h.modifyCall (f := .pushResult item) ?_ ?_ ?_ (streamOf_append log _)
    · exact fun c => by cases c <;> exact Iff.rfl
    · exact fun c => by cases c <;> rfl
    · intro c script stream hfares
      unfold Call.Fares at hfares
      split at hfares
      next => exact hfares
      next => exact hfares.deliver item
      next => cases hfares
  | finish name =>
    refine h.modifyCall (f := .finish) ?_ ?_ ?_ (streamOf_append log _)
    · exact fun c => by cases c <;> exact Iff.rfl
    · exact fun c => by cases c <;> rfl
    · intro c script stream hfares
      unfold Call.Fares at hfares
      split at hfares
      next => exact hfares.finish
      next => exact hfares.finish
      next => cases hfares
  | abort name => exact absurd rfl (hplays.not_abort.2 name)
  | stop => exact absurd rfl hplays.not_abort.1

/-! ### Moves -/

/-- What others have added leaves alone the ids of a call that has added nothing yet. -/
theorem get?_tasks_of_not_hasGained (h : s.Weaves agent store scripts log answers gained)
    (hindependent : Independent agent.token scripts) (hscript : (name, script) ∈ scripts)
    (hcall : s.call? name = some call) (hgained : ¬ call.HasGained) {id : String}
    (hid : id ∈ script.ids agent.token) :
    (store.gains agent.identity (gained.map Prod.snd)).tasks.get? id = store.tasks.get? id := by
  refine StorePart.tasks.find?_gains_of_not_mem ?_
  intro g hg
  obtain ⟨⟨n, g⟩, hmem, rfl⟩ := List.mem_map.1 hg
  obtain ⟨c, hc, hgained', script', hscript', hgain⟩ := (h.gains.mem_iff n g).1 hmem
  show id ∉ g.ids
  rw [(Script.ids_of_gain? hgain).1]
  refine hindependent.ids _ hscript _ hscript' ?_ id hid
  rintro rfl
  rw [hcall] at hc
  cases hc
  exact hgained hgained'

/-- A move of a call keeps the invariant. -/
theorem moves (h : s.Weaves agent store scripts log answers gained)
    (hrun : agent.stopped = false) (hindependent : Independent agent.token scripts)
    (hplays : Plays scripts log) (hmove : s.Moves t) :
    ∃ gained', t.Weaves agent store scripts log (answers ++ t.newResults s) gained' := by
  cases hmove with
  | @call i name call call' a b hcall hmove =>
    have hfound : s.call? name = some call :=
      (call?_eq_some_iff h.performs.names).2 (List.mem_of_getElem? hcall)
    obtain ⟨script, stream, hscript, hstream, hfares⟩ := h.performs.fares name call hfound
    have hresult := hfares.result?_eq_none_of_moves hmove
    have hunique : ∀ script', (name, script') ∈ scripts → script' = script := by
      intro script' hscript'
      rw [← lookup_eq_some_iff hindependent.names] at hscript hscript'
      rw [hscript] at hscript'
      exact (Option.some.inj hscript').symm
    rw [newResults_set h.performs.names hcall hresult]
    rw [h.agent, h.backend] at hmove
    have hadvances := hfares.moves hrun (hplays.begins hscript hstream)
      (store.limit_gains agent.identity _)
      (fun hstored id hid => h.get?_tasks_of_not_hasGained hindependent hscript hfound
        (Call.not_hasGained hstored hresult) hid) hmove
    have hperforms := h.performs.set hcall hscript hstream hadvances.fares a b
    have hlookup : ∀ n, (⟨a, b, s.calls.set i (name, call')⟩ : Session).call? n =
        if name = n then some call' else s.call? n := lookup_set h.performs.names hcall call'
    cases hadvances with
    | goesOn _ hbefore hafter hresult' =>
      refine ⟨gained, hperforms, h.gains.set hlookup ?_, ?_, rfl, ?_⟩
      · intro g
        simp [hfound, Call.not_hasGained hbefore hresult, Call.not_hasGained hafter hresult']
      · rw [hresult', Option.map_none, Option.toList_none, List.append_nil]
        exact h.results.set hlookup fun r => by simp [hfound, hresult, hresult']
      · simp [hresult']
    | @stores _ g _ hgain hbefore hafter hresult' =>
      refine ⟨gained ++ [(name, g)], hperforms, h.gains.snoc hlookup ?_ ?_, ?_, ?_, ?_⟩
      · intro c g' hc hgained
        rw [hfound] at hc
        cases hc
        exact Call.not_hasGained hbefore hresult hgained.1
      · intro g'
        constructor
        · rintro ⟨-, script', hscript', hgain'⟩
          rw [hunique script' hscript', hgain] at hgain'
          exact (Option.some.inj hgain').symm
        · rintro rfl
          exact ⟨.inl hafter, script, hscript, hgain⟩
      · rw [hresult', Option.map_none, Option.toList_none, List.append_nil]
        exact h.results.set hlookup fun r => by simp [hfound, hresult, hresult']
      · rw [List.map_append, List.map_singleton, Store.gains_concat]
      · simp [hresult']
    | answers _ hgained hafter hresult' =>
      refine ⟨gained, hperforms, h.gains.set hlookup ?_, ?_, rfl, ?_⟩
      · intro g
        have hgained' : call'.HasGained := .inr (by simp [hresult'])
        constructor
        · rintro ⟨-, script', hscript', hgain⟩
          refine ⟨call, hfound, ?_, script', hscript', hgain⟩
          rcases hgained with hstored | hnone
          · exact .inl hstored
          · rw [hunique script' hscript', hnone] at hgain
            cases hgain
        · rintro ⟨_, -, -, hgain⟩
          exact ⟨hgained', hgain⟩
      · rw [hresult', Option.map_some, Option.toList_some]
        refine h.results.snoc hlookup ?_ fun r => by simp [hresult', eq_comm]
        intro c r hc
        rw [hfound] at hc
        cases hc
        simp [hresult]
      · have hcreated : createdBy agent store scripts name = script.created agent store := by
          rw [createdBy, (lookup_eq_some_iff hindependent.names).2 hscript]
          rfl
        simp [hresult', hcreated]

end Session.Weaves

/-- The invariant holds in every run in which independent scripts are played. -/
theorem Session.Runs.weaves (h : s.Runs agent store log answers) (hrun : agent.stopped = false)
    (hindependent : Independent agent.token scripts) (hplays : Plays scripts log) :
    ∃ gained, s.Weaves agent store scripts log answers gained := by
  induction h with
  | start => exact ⟨[], .start agent store scripts⟩
  | event e _ ih =>
    obtain ⟨gained, hweaves⟩ := ih hplays.of_concat
    exact ⟨gained, hweaves.accept hplays⟩
  | move _ hmove ih =>
    obtain ⟨gained, hweaves⟩ := ih hplays
    exact hweaves.moves hrun hindependent hplays hmove

end Sidecar
