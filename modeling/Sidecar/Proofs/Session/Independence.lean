import Sidecar.Proofs.Session.Weaving

/-!
# Calls do not get in each other's way

Where the scripts of several calls are independent, each call comes to what it would come to alone,
however the elements of their streams arrive and in whatever order the calls move
(`Session.calls_do_not_interfere`). The store in the end has grown by what each call alone would add
to it (`Store.Joins`), and the agent has created the batches one after the other, in the order in
which the calls have answered. Where the session rests before an element arrives, only the call the
element is for can answer it, and it does so if the element decides its stream.
-/

namespace Sidecar

/-! ## Stores that have grown together -/

/-- Several stores have grown out of a first one. In this part of the last one is what any of them
has anew, and otherwise what the first one has. -/
def StorePart.Joins {α : Type} (part : StorePart α) (first : Store) (grown : List Store)
    (last : Store) : Prop :=
  ∀ key,
    (∀ store ∈ grown, part.find? store key ≠ part.find? first key →
      part.find? last key = part.find? store key) ∧
    ((∀ store ∈ grown, part.find? store key = part.find? first key) →
      part.find? last key = part.find? first key)

/-- Several stores have grown out of a first one, and the last one has what any of them has anew,
and otherwise what the first one has. -/
structure Store.Joins (first : Store) (grown : List Store) (last : Store) : Prop where
  limit : last.limit = first.limit
  tasks : StorePart.tasks.Joins first grown last
  results : StorePart.results.Joins first grown last

/-- What independent scripts add to a store, noted for each of them. -/
structure Gained (agent : Agent) (store : Store) (scripts : List (String × Script))
    (gained : List (String × Gain)) : Prop where
  names : (gained.map Prod.fst).Nodup
  mem_iff : ∀ n g, (n, g) ∈ gained ↔
    ∃ script, (n, script) ∈ scripts ∧ script.gain? agent store = some g

section Joining

variable {agent : Agent} {store : Store} {scripts : List (String × Script)}
  {gained : List (String × Gain)} {α : Type} {part : StorePart α}

/-- What a script adds is found in the end as if it had been added alone. -/
theorem Gained.find? (h : Gained agent store scripts gained)
    (hapart : ∀ p ∈ gained, ∀ q ∈ gained, p.1 ≠ q.1 →
      ∀ key ∈ part.keys p.2, key ∉ part.keys q.2)
    {name : String} {g : Gain} (hmem : (name, g) ∈ gained) {key : String}
    (hkey : key ∈ part.keys g) :
    part.find? (store.gains agent.identity (gained.map Prod.snd)) key =
      part.find? (store.gain agent.identity g) key := by
  obtain ⟨script, -, hgain⟩ := (h.mem_iff name g).1 hmem
  have hnames := h.names
  obtain ⟨before, after, rfl⟩ := List.append_of_mem hmem
  rw [List.map_append, List.map_cons]
  refine part.find?_gains (Script.ids_of_gain? hgain).2.2 hkey ?_
  intro g' hg'
  obtain ⟨⟨n, g'⟩, hafter, rfl⟩ := List.mem_map.1 hg'
  refine hapart (name, g) hmem (n, g') (by simp [hafter]) ?_ key hkey
  rintro rfl
  rw [List.map_append, List.map_cons, List.nodup_append, List.nodup_cons] at hnames
  exact hnames.2.1.1 (List.mem_map.2 ⟨_, hafter, rfl⟩)

/-- The store with all that was added joins the stores with what each script adds. -/
theorem Gained.joins (h : Gained agent store scripts gained)
    (hapart : ∀ p ∈ gained, ∀ q ∈ gained, p.1 ≠ q.1 →
      ∀ key ∈ part.keys p.2, key ∉ part.keys q.2) :
    part.Joins store (scripts.map fun p => p.2.stored agent store)
      (store.gains agent.identity (gained.map Prod.snd)) := by
  intro key
  constructor
  · intro _ hstore hne
    obtain ⟨⟨name, script⟩, hscript, rfl⟩ := List.mem_map.1 hstore
    simp only [Script.stored] at hne ⊢
    cases hgain : script.gain? agent store with
    | none => simp [hgain] at hne
    | some g =>
      simp only [hgain, Option.elim_some] at hne ⊢
      have hkey : key ∈ part.keys g := Classical.byContradiction fun hkey =>
        hne (part.find?_gain_of_not_mem _ _ _ _ hkey)
      exact h.find? hapart ((h.mem_iff name g).2 ⟨script, hscript, hgain⟩) hkey
  · intro hsame
    by_cases hex : ∃ p ∈ gained, key ∈ part.keys p.2
    · obtain ⟨⟨name, g⟩, hmem, hkey⟩ := hex
      obtain ⟨script, hscript, hgain⟩ := (h.mem_iff name g).1 hmem
      have hstored := hsame _ (List.mem_map.2 ⟨(name, script), hscript, rfl⟩)
      simp only [Script.stored, hgain, Option.elim_some] at hstored
      rw [h.find? hapart hmem hkey, hstored]
    · refine part.find?_gains_of_not_mem ?_
      intro g hg hkey
      obtain ⟨p, hp, rfl⟩ := List.mem_map.1 hg
      exact hex ⟨p, hp, hkey⟩

/-- Gains of independent scripts have neither ids nor keys in common. -/
theorem Independent.apart (hindependent : Independent agent.token scripts)
    (h : Gained agent store scripts gained) {p q : String × Gain} (hp : p ∈ gained)
    (hq : q ∈ gained) (hne : p.1 ≠ q.1) :
    (∀ id ∈ p.2.ids, id ∉ q.2.ids) ∧ ∀ key ∈ p.2.keys, key ∉ q.2.keys := by
  obtain ⟨script, hscript, hgain⟩ := (h.mem_iff p.1 p.2).1 hp
  obtain ⟨script', hscript', hgain'⟩ := (h.mem_iff q.1 q.2).1 hq
  obtain ⟨hids, hkeys, -⟩ := Script.ids_of_gain? hgain
  obtain ⟨hids', hkeys', -⟩ := Script.ids_of_gain? hgain'
  rw [hids, hids', hkeys, hkeys']
  exact ⟨hindependent.ids _ hscript _ hscript' hne, hindependent.keys _ hscript _ hscript' hne⟩

end Joining

/-! ## What decides a call -/

/-- What has arrived for a call decides it. -/
def DecidedBy (token : Token) (log : List SessionEvent) (name : String) : Prop :=
  ∃ stream, streamOf log name = some stream ∧ stream.Decides token

/-- A batch that succeeds is decided by its last task. -/
theorem Plays.exists_lastTask {agent : Agent} {store : Store} {scripts : List (String × Script)}
    {log : List SessionEvent} {e : SessionEvent} {name : String} {script : Script}
    (hplays : Plays scripts (log ++ [e])) (hscript : (name, script) ∈ scripts)
    (hbefore : ¬ DecidedBy agent.token log name)
    (hafter : DecidedBy agent.token (log ++ [e]) name)
    (houtcome : script.outcome agent store = .create (.ok .successful)) :
    ∃ request, e = .createItem name (.ok request) ∧
      CreateStep.ofKind? request.kind = some .lastTask := by
  cases script with
  | result items => cases houtcome
  | create items =>
    have hwhole : ∃ b, scanRequests agent.token .idle .empty items = .complete b := by
      rw [Script.outcome, CallResult.create.injEq, Agent.createSequentially] at houtcome
      cases hverdict : scanRequests agent.token .idle .empty items with
      | undecided state b => simp [hverdict] at houtcome
      | decided result =>
        rw [hverdict] at houtcome
        obtain rfl : result = .ok .successful := houtcome
        exact absurd hverdict (scanRequests_ne_successful _ _ _ _)
      | complete b => exact ⟨b, rfl⟩
    obtain ⟨b, hwhole⟩ := hwhole
    obtain ⟨stream, hstream, hdecides⟩ := hafter
    have hbegins := hplays.begins hscript hstream
    -- What had arrived before decided nothing.
    have hundecided : ∀ {got ended}, streamOf log name = some (.create got ended) →
        ended ≠ true ∧
          ∃ state b', scanRequests agent.token .idle .empty got = .undecided state b' :=
      fun hstream => ⟨fun hended => hbefore ⟨_, hstream, .inl hended⟩,
        Classical.byContradiction fun hnone => hbefore ⟨_, hstream, .inr fun state b' hscan =>
          hnone ⟨state, b', hscan⟩⟩⟩
    rw [streamOf_append] at hstream
    by_cases hname : e.name? = some name
    · cases e with
      | stop => cases hname
      | abort n =>
        cases hname
        rw [SessionEvent.record, if_pos rfl] at hstream
        cases hstream
      | openCreate n =>
        cases hname
        rw [SessionEvent.record, if_pos rfl] at hstream
        cases hstream
        rcases hdecides with hended | hdecided
        · cases hended
        · exact absurd rfl (hdecided _ _)
      | openResult n =>
        cases hname
        rw [SessionEvent.record, if_pos rfl] at hstream
        cases hstream
        cases hbegins
      | createItem n item =>
        cases hname
        rw [SessionEvent.record, if_pos rfl, Option.map_eq_some_iff] at hstream
        obtain ⟨stream, hstream, rfl⟩ := hstream
        cases stream with
        | result got ended => cases hbegins
        | create got ended =>
          obtain ⟨hended, state, b', hgot⟩ := hundecided hstream
          have hverdict := CreateCall.scanRequests_eq_of_isPrefix hbegins.1
            (hdecides.resolve_left hended)
          rw [hwhole, scanRequests, scanStream_concat hgot] at hverdict
          obtain ⟨-, -, request, rfl, -, hlast⟩ := examineCreation_eq_complete_iff.1 hverdict.symm
          exact ⟨request, rfl, hlast⟩
      | resultItem n item =>
        cases hname
        rw [SessionEvent.record, if_pos rfl, Option.map_eq_some_iff] at hstream
        obtain ⟨stream, hstream, rfl⟩ := hstream
        cases stream with
        | result got ended => cases hbegins
        | create got ended => exact absurd ⟨_, hstream, hdecides⟩ hbefore
      | finish n =>
        cases hname
        rw [SessionEvent.record, if_pos rfl, Option.map_eq_some_iff] at hstream
        obtain ⟨stream, hstream, rfl⟩ := hstream
        cases stream with
        | result got ended => cases hbegins
        | create got ended =>
          obtain ⟨-, state, b', hgot⟩ := hundecided hstream
          obtain rfl := hbegins.2 rfl
          rw [hwhole] at hgot
          cases hgot
    · rw [e.record_of_ne hname] at hstream
      exact absurd ⟨stream, hstream, hdecides⟩ hbefore

/-! ## Sessions at rest -/

namespace Session.Weaves

variable {agent : Agent} {store : Store} {scripts : List (String × Script)}
  {log : List SessionEvent} {answers : List (String × CallResult)}
  {gained : List (String × Gain)} {s : Session} {name : String}

/-- Where nothing moves, a call has answered with the outcome of one pass, or its stream does not
decide it. -/
theorem rests (h : s.Weaves agent store scripts log answers gained) (hrun : agent.stopped = false)
    (hidle : ∀ t, ¬ s.Moves t) {call : Call} (hcall : s.call? name = some call) :
    ∃ script stream, (name, script) ∈ scripts ∧ streamOf log name = some stream ∧
      ((call.result? = some (script.outcome agent store) ∧ stream.Decides agent.token) ∨
        (call.result? = none ∧ ¬ stream.Decides agent.token)) := by
  obtain ⟨script, stream, hscript, hstream, hfares⟩ := h.performs.fares name call hcall
  obtain ⟨i, hi⟩ := List.getElem?_of_mem ((call?_eq_some_iff h.performs.names).1 hcall)
  have hstill := Wakes.not_moves_of_idle hidle hi
  rw [h.agent, h.backend] at hstill
  exact ⟨script, stream, hscript, hstream, hfares.rests hrun hstill⟩

/-- Where nothing moves, the calls that have answered are those whose streams decide them. -/
theorem answered_iff (h : s.Weaves agent store scripts log answers gained)
    (hrun : agent.stopped = false) (hidle : ∀ t, ¬ s.Moves t) :
    name ∈ answers.map Prod.fst ↔ DecidedBy agent.token log name := by
  constructor
  · intro hname
    obtain ⟨⟨n, r⟩, hmem, rfl⟩ := List.mem_map.1 hname
    obtain ⟨c, hc, hresult⟩ := (h.results.mem_iff n r).1 hmem
    obtain ⟨script, stream, -, hstream, hcase⟩ := h.rests hrun hidle hc
    rcases hcase with ⟨-, hdecides⟩ | ⟨hnone, -⟩
    · exact ⟨stream, hstream, hdecides⟩
    · rw [hresult] at hnone
      cases hnone
  · rintro ⟨stream, hstream, hdecides⟩
    have hopened := h.performs.opened name
    rw [hstream] at hopened
    obtain ⟨c, hc⟩ := Option.isSome_iff_exists.1 hopened
    obtain ⟨script, stream', -, hstream', hcase⟩ := h.rests hrun hidle hc
    rw [hstream] at hstream'
    cases hstream'
    rcases hcase with ⟨hresult, -⟩ | ⟨-, hundecided⟩
    · exact List.mem_map.2 ⟨_, (h.results.mem_iff name _).2 ⟨c, hc, hresult⟩, rfl⟩
    · exact absurd hdecides hundecided

/-- Where the scripts are played out and nothing moves, every call has answered with the outcome of
one pass. -/
theorem answer_of_playsOut (h : s.Weaves agent store scripts log answers gained)
    (hrun : agent.stopped = false) (hindependent : Independent agent.token scripts)
    (hplays : PlaysOut scripts log) (hidle : ∀ t, ¬ s.Moves t) {script : Script}
    (hscript : (name, script) ∈ scripts) :
    ∃ call, s.call? name = some call ∧ call.result? = some (script.outcome agent store) := by
  have hstream := hplays.streamOf hscript
  have hopened := h.performs.opened name
  rw [hstream] at hopened
  obtain ⟨c, hc⟩ := Option.isSome_iff_exists.1 hopened
  obtain ⟨script', stream', hscript', hstream', hcase⟩ := h.rests hrun hidle hc
  rw [hstream] at hstream'
  cases hstream'
  rw [← lookup_eq_some_iff hindependent.names] at hscript hscript'
  rw [hscript] at hscript'
  cases hscript'
  rcases hcase with ⟨hresult, -⟩ | ⟨-, hundecided⟩
  · exact ⟨c, hc, hresult⟩
  · refine absurd ?_ hundecided
    cases script <;> exact .inl rfl

/-- Where the scripts are played out and nothing moves, what each script adds has been added. -/
theorem gained_of_playsOut (h : s.Weaves agent store scripts log answers gained)
    (hrun : agent.stopped = false) (hindependent : Independent agent.token scripts)
    (hplays : PlaysOut scripts log) (hidle : ∀ t, ¬ s.Moves t) :
    Gained agent store scripts gained := by
  refine ⟨h.gains.names, fun n g => ?_⟩
  rw [h.gains.mem_iff]
  constructor
  · rintro ⟨c, -, -, hgain⟩
    exact hgain
  · rintro ⟨script, hscript, hgain⟩
    obtain ⟨c, hc, hresult⟩ := h.answer_of_playsOut hrun hindependent hplays hidle hscript
    exact ⟨c, hc, .inr (by simp [hresult]), script, hscript, hgain⟩

/-- Where the scripts are played out and nothing moves, each call has answered, and no other. -/
theorem answers_perm (h : s.Weaves agent store scripts log answers gained)
    (hrun : agent.stopped = false) (hindependent : Independent agent.token scripts)
    (hplays : PlaysOut scripts log) (hidle : ∀ t, ¬ s.Moves t) :
    (answers.map Prod.fst).Perm (scripts.map Prod.fst) := by
  refine (List.perm_ext_iff_of_nodup h.results.names hindependent.names).2 fun name => ?_
  constructor
  · intro hname
    obtain ⟨⟨n, r⟩, hmem, rfl⟩ := List.mem_map.1 hname
    obtain ⟨c, hc, -⟩ := (h.results.mem_iff n r).1 hmem
    obtain ⟨script, -, hscript, -⟩ := h.performs.fares n c hc
    exact List.mem_map.2 ⟨_, hscript, rfl⟩
  · intro hname
    obtain ⟨p, hp, rfl⟩ := List.mem_map.1 hname
    obtain ⟨c, hc, hresult⟩ := h.answer_of_playsOut hrun hindependent hplays hidle hp
    exact List.mem_map.2 ⟨_, (h.results.mem_iff p.1 _).2 ⟨c, hc, hresult⟩, rfl⟩

/-- Where the scripts are played out and nothing moves, each call has answered as it does alone. -/
theorem answers_alone (h : s.Weaves agent store scripts log answers gained)
    (hrun : agent.stopped = false) (hindependent : Independent agent.token scripts)
    (hplays : PlaysOut scripts log) (hidle : ∀ t, ¬ s.Moves t) {p : String × Script}
    (hp : p ∈ scripts) :
    ∃ result, (p.2.alone agent store).outcome? = some result ∧
      (s.call? p.1 >>= Call.result?) = some result ∧ (p.1, result) ∈ answers := by
  obtain ⟨c, hc, hresult⟩ := h.answer_of_playsOut hrun hindependent hplays hidle hp
  obtain ⟨call, hcall, heq⟩ := p.2.alone_eq store hrun
  refine ⟨p.2.outcome agent store, ?_, ?_, (h.results.mem_iff p.1 _).2 ⟨c, hc, hresult⟩⟩
  · rw [heq]
    exact hcall
  · rw [hc]
    exact hresult

/-- Where the scripts are played out and nothing moves, the store has grown by what each call alone
adds to it. -/
theorem joins_alone (h : s.Weaves agent store scripts log answers gained)
    (hrun : agent.stopped = false) (hindependent : Independent agent.token scripts)
    (hplays : PlaysOut scripts log) (hidle : ∀ t, ¬ s.Moves t) :
    store.Joins (scripts.map fun p => (p.2.alone agent store).backend.store)
      (store.gains agent.identity (gained.map Prod.snd)) := by
  have hgained := h.gained_of_playsOut hrun hindependent hplays hidle
  have hstores : scripts.map (fun p => (p.2.alone agent store).backend.store) =
      scripts.map fun p => p.2.stored agent store := by
    refine List.map_congr_left fun p _ => ?_
    obtain ⟨call, -, heq⟩ := p.2.alone_eq store hrun
    rw [heq]
    rfl
  rw [hstores]
  exact ⟨store.limit_gains agent.identity _,
    hgained.joins fun p hp q hq hne => (hindependent.apart hgained hp hq hne).1,
    hgained.joins fun p hp q hq hne => (hindependent.apart hgained hp hq hne).2⟩

end Session.Weaves

namespace Session

variable {agent : Agent} {store : Store} {scripts : List (String × Script)}
  {log : List SessionEvent} {answers : List (String × CallResult)} {s t : Session}

/-- A session that rests before an event and after it has the answers of the calls which the event
decides, and a batch that has succeeded has done so with its last task. -/
theorem Runs.event_settles (h : s.Runs agent store log answers) (hrun : agent.stopped = false)
    (hindependent : Independent agent.token scripts) {e : SessionEvent}
    (hplays : Plays scripts (log ++ [e])) (hidle : ∀ u, ¬ s.Moves u)
    (hsettles : (s.accept e).Settles t) :
    ∃ more : List (String × CallResult), t.Runs agent store (log ++ [e]) (answers ++ more) ∧
      (∀ name, name ∈ more.map Prod.fst ↔ e.name? = some name ∧
        ¬ DecidedBy agent.token log name ∧ DecidedBy agent.token (log ++ [e]) name) ∧
      ∀ name, (name, .create (.ok .successful)) ∈ more →
        ∃ request, e = .createItem name (.ok request) ∧
          CreateStep.ofKind? request.kind = some .lastTask := by
  obtain ⟨gained, hweaves⟩ := h.weaves hrun hindependent hplays.of_concat
  obtain ⟨more, hruns⟩ := (h.event e).comes hsettles.comes
  obtain ⟨gained', hweaves'⟩ := hruns.weaves hrun hindependent hplays
  have hmore : ∀ name, name ∈ more.map Prod.fst ↔ e.name? = some name ∧
      ¬ DecidedBy agent.token log name ∧ DecidedBy agent.token (log ++ [e]) name := by
    intro name
    have hbefore : name ∈ answers.map Prod.fst ↔ DecidedBy agent.token log name :=
      hweaves.answered_iff hrun hidle
    have hafter : name ∈ (answers ++ more).map Prod.fst ↔
        DecidedBy agent.token (log ++ [e]) name := hweaves'.answered_iff hrun hsettles.idle
    have hnames := hweaves'.results.names
    rw [List.map_append, List.mem_append] at hafter
    rw [List.map_append, List.nodup_append] at hnames
    constructor
    · intro hname
      have hundecided : ¬ DecidedBy agent.token log name := fun hdecided =>
        hnames.2.2 name (hbefore.2 hdecided) name hname rfl
      have hdecided := hafter.1 (.inr hname)
      refine ⟨Classical.byContradiction fun hne => hundecided ?_, hundecided, hdecided⟩
      obtain ⟨stream, hstream, hdecides⟩ := hdecided
      rw [streamOf_append, e.record_of_ne hne] at hstream
      exact ⟨stream, hstream, hdecides⟩
    · rintro ⟨-, hundecided, hdecided⟩
      exact (hafter.2 hdecided).resolve_left fun hname => hundecided (hbefore.1 hname)
  refine ⟨more, hruns, hmore, ?_⟩
  intro name hmem
  obtain ⟨-, hundecided, hdecided⟩ := (hmore name).1 (List.mem_map.2 ⟨_, hmem, rfl⟩)
  obtain ⟨c, hc, hresult⟩ := (hweaves'.results.mem_iff name _).1 (List.mem_append.2 (.inr hmem))
  obtain ⟨script, stream, hscript, -, hcase⟩ := hweaves'.rests hrun hsettles.idle hc
  rcases hcase with ⟨houtcome, -⟩ | ⟨hnone, -⟩
  · rw [hresult, Option.some.injEq] at houtcome
    exact hplays.exists_lastTask hscript hundecided hdecided houtcome.symm
  · rw [hresult] at hnone
    cases hnone

/-- Independent calls on one agent do not get in each other's way. Every log has a run, every run
can be brought to rest, and no schedule goes on for ever. Where the scripts are played out, in
whatever order the elements arrive and the calls move, and the session rests, every call has
answered as it does alone; the store is the one at the beginning with all that the calls alone add
to it; and the agent has created the batches one after the other, each as the call alone creates it,
in the order of the answers. Where the session rests before an element arrives and comes to rest
again, the calls that have answered meanwhile are those whose stream the element decides, and a
batch that has succeeded has done so with its last task. -/
theorem calls_do_not_interfere (identity : Identity) (token : Token) (capacity : Nat)
    (created : List CreatedTask) (store : Store) {scripts : List (String × Script)}
    (hindependent : Independent token scripts) :
    let agent : Agent := ⟨identity, token, capacity, created, false⟩
    (∀ log, ∃ s : Session, s.Runs agent store log []) ∧
    (∀ log answers (s : Session), s.Runs agent store log answers →
      ∃ (more : List (String × CallResult)) (t : Session), s.Settles t ∧
        t.Runs agent store log (answers ++ more)) ∧
    (∀ schedule : Nat → Session, ∃ n, ¬ (schedule n).Moves (schedule (n + 1))) ∧
    (∀ log (answers : List (String × CallResult)) (s : Session), PlaysOut scripts log →
      s.Runs agent store log answers → (∀ t, ¬ s.Moves t) →
      (answers.map Prod.fst).Perm (scripts.map Prod.fst) ∧
      (∀ p ∈ scripts, ∃ result, (p.2.alone agent store).outcome? = some result ∧
        (s.call? p.1 >>= Call.result?) = some result ∧ (p.1, result) ∈ answers) ∧
      (∃ store', s.backend = .ofStore store' ∧
        store.Joins (scripts.map fun p => (p.2.alone agent store).backend.store) store') ∧
      s.agent = { agent with
        created := created ++ answers.flatMap fun a => createdBy agent store scripts a.1 } ∧
      ∀ p ∈ scripts, (p.2.alone agent store).agent.created =
        created ++ createdBy agent store scripts p.1) ∧
    (∀ log e (answers : List (String × CallResult)) (s t : Session), Plays scripts (log ++ [e]) →
      s.Runs agent store log answers → (∀ u, ¬ s.Moves u) → (s.accept e).Settles t →
      ∃ more : List (String × CallResult), t.Runs agent store (log ++ [e]) (answers ++ more) ∧
        (∀ name, name ∈ more.map Prod.fst ↔ e.name? = some name ∧
          ¬ DecidedBy token log name ∧ DecidedBy token (log ++ [e]) name) ∧
        ∀ name, (name, .create (.ok .successful)) ∈ more →
          ∃ request, e = .createItem name (.ok request) ∧
            CreateStep.ofKind? request.kind = some .lastTask) := by
  intro agent
  refine ⟨exists_runs agent store, ?_, exists_not_moves, ?_, ?_⟩
  · intro log answers s hruns
    obtain ⟨more, hruns'⟩ := hruns.comes s.settles_run.comes
    exact ⟨more, s.run, s.settles_run, hruns'⟩
  · intro log answers s hplays hruns hidle
    obtain ⟨gained, hweaves⟩ := hruns.weaves rfl hindependent hplays.plays
    refine ⟨hweaves.answers_perm rfl hindependent hplays hidle,
      fun p hp => hweaves.answers_alone rfl hindependent hplays hidle hp,
      ⟨_, hweaves.backend, hweaves.joins_alone rfl hindependent hplays hidle⟩, hweaves.agent, ?_⟩
    intro p hp
    obtain ⟨call, -, heq⟩ := p.2.alone_eq store (show agent.stopped = false from rfl)
    rw [heq, createdBy, (lookup_eq_some_iff hindependent.names).2 hp]
    rfl
  · intro log e answers s t hplays hruns hidle hsettles
    exact hruns.event_settles rfl hindependent hplays hidle hsettles

/-- Two calls, one of which creates a task and the other of which hands in a result. -/
def twoScripts : List (String × Script) :=
  [("a", .create [.ok ⟨"secret", some (.initRequest none)⟩,
      .ok ⟨"secret", some (.initTask (some (.header ⟨"task", [], []⟩)))⟩,
      .ok ⟨"secret", some (.taskPayload (some (.data [1])))⟩,
      .ok ⟨"secret", some (.taskPayload (some .complete))⟩,
      .ok ⟨"secret", some (.initTask (some .lastTask))⟩]),
    ("b", .result [.ok ⟨"secret", some (.init (some (.key "result")))⟩,
      .ok ⟨"secret", some (.data (some (.data [2])))⟩,
      .ok ⟨"secret", some (.data (some .complete))⟩,
      .ok ⟨"secret", some (.init (some .lastResult))⟩])]

/-- The result is handed in while the task is being created. -/
def twoScriptsLog : List SessionEvent :=
  match twoScripts with
  | [(a, creates), (b, hands)] =>
    (creates.events a).take 3 ++ hands.events b ++ (creates.events a).drop 3
  | _ => []

/-- The two calls are independent, and both the task and the result are stored in the end. -/
theorem two_calls_do_not_interfere :
    Independent ⟨"secret"⟩ twoScripts ∧ PlaysOut twoScripts twoScriptsLog ∧
      ∃ answers s store', Runs ⟨⟨"session", "parent"⟩, ⟨"secret"⟩, 10, [], false⟩ (.empty 0)
        twoScriptsLog answers s ∧ s.backend = .ofStore store' ∧
        (store'.tasks.get? "task").map (·.payload) = some [1] ∧
        (store'.results.get? "result").map (·.payload) = some [2] := by
  have hindependent : Independent ⟨"secret"⟩ twoScripts :=
    ⟨by decide, by decide +kernel, by decide +kernel⟩
  have hplays : PlaysOut twoScripts twoScriptsLog := by
    constructor
    · simp [twoScriptsLog, twoScripts, Script.events, SessionEvent.name?]
    · simp [twoScriptsLog, twoScripts, Script.events, eventsOf, SessionEvent.name?]
  obtain ⟨hruns, hrest, -, hend, -⟩ := calls_do_not_interfere ⟨"session", "parent"⟩ ⟨"secret"⟩ 10 []
    (.empty 0) hindependent
  obtain ⟨s, hs⟩ := hruns twoScriptsLog
  obtain ⟨answers, t, hsettles, ht⟩ := hrest _ _ _ hs
  obtain ⟨-, -, ⟨store', hbackend, hjoins⟩, -, -⟩ := hend _ _ _ hplays ht hsettles.idle
  refine ⟨hindependent, hplays, _, t, store', ht, hbackend, ?_, ?_⟩
  · have hcreates := List.mem_map_of_mem (f := fun p => (p.2.alone
      ⟨⟨"session", "parent"⟩, ⟨"secret"⟩, 10, [], false⟩ (.empty 0)).backend.store)
      (List.getElem_mem (l := twoScripts) Nat.zero_lt_two)
    have htask := (hjoins.tasks "task").1 _ hcreates (by decide +kernel)
    rw [show store'.tasks.get? "task" = _ from htask]
    decide +kernel
  · have hhands := List.mem_map_of_mem (f := fun p => (p.2.alone
      ⟨⟨"session", "parent"⟩, ⟨"secret"⟩, 10, [], false⟩ (.empty 0)).backend.store)
      (List.getElem_mem (l := twoScripts) Nat.one_lt_two)
    have hresult := (hjoins.results "result").1 _ hhands (by decide +kernel)
    rw [show store'.results.get? "result" = _ from hresult]
    decide +kernel

end Session

end Sidecar
