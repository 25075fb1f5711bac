import Sidecar.Proofs.Session.Faring

/-!
# Playing scripts

Several scripts are played at once where a log is an interleaving of what happens in each of them
(`PlaysOut`), or has not come to the end of one (`Plays`). What has arrived for a call is then the
beginning of its script (`Plays.begins`), and the whole of it where the scripts are played out
(`PlaysOut.streamOf`).
-/

namespace Sidecar

namespace SessionEvent

/-- The name of the call that is concerned. -/
def name? : SessionEvent → Option String
  | openCreate name | openResult name | createItem name _ | resultItem name _ | finish name
  | abort name => some name
  | stop => none

/-- Is a call opened? -/
def opens : SessionEvent → Bool
  | openCreate _ | openResult _ => true
  | createItem _ _ | resultItem _ _ | finish _ | abort _ | stop => false

/-- Only the call that is concerned hears of an event. -/
theorem record_of_ne {e : SessionEvent} {name : String} (h : e.name? ≠ some name)
    (stream : Option CallStream) : e.record name stream = stream := by
  cases e with
  | stop => rfl
  | _ => exact if_neg fun heq => h (congrArg some heq)

end SessionEvent

/-- What happens to one call of a log. -/
def eventsOf (log : List SessionEvent) (name : String) : List SessionEvent :=
  log.filter fun e => e.name? = some name

theorem eventsOf_concat (log : List SessionEvent) (e : SessionEvent) (name : String) :
    eventsOf (log ++ [e]) name =
      eventsOf log name ++ if e.name? = some name then [e] else [] := by
  rw [eventsOf, List.filter_append]
  by_cases h : e.name? = some name <;> simp [eventsOf, h]

/-- What happens to other calls does not matter to the stream of a call. -/
theorem streamOf_eventsOf (log : List SessionEvent) (name : String) :
    streamOf (eventsOf log name) name = streamOf log name := by
  rw [streamOf, streamOf, eventsOf, List.foldl_filter]
  congr 1
  funext stream e
  by_cases h : e.name? = some name
  · rw [if_pos (decide_eq_true h)]
  · rw [if_neg (by simpa using h), e.record_of_ne h]

/-- What happens in a log is what happens in the scripts, in the order in which it happens in each
of them, and no script need have come to its end. -/
structure Plays (scripts : List (String × Script)) (log : List SessionEvent) : Prop where
  named : ∀ e ∈ log, ∃ p ∈ scripts, e.name? = some p.1
  inOrder : ∀ p ∈ scripts, eventsOf log p.1 <+: p.2.events p.1

/-- What happens in a log is what happens in the scripts, in the order in which it happens in each
of them, and up to their ends. -/
structure PlaysOut (scripts : List (String × Script)) (log : List SessionEvent) : Prop where
  named : ∀ e ∈ log, ∃ p ∈ scripts, e.name? = some p.1
  inOrder : ∀ p ∈ scripts, eventsOf log p.1 = p.2.events p.1

/-- The scripts have different names, the whole batches they bring have no id in common, and the
whole results they bring have different keys. -/
structure Independent (token : Token) (scripts : List (String × Script)) : Prop where
  names : (scripts.map Prod.fst).Nodup
  ids : ∀ p ∈ scripts, ∀ q ∈ scripts, p.1 ≠ q.1 →
    ∀ id ∈ p.2.ids token, id ∉ q.2.ids token
  keys : ∀ p ∈ scripts, ∀ q ∈ scripts, p.1 ≠ q.1 →
    ∀ key ∈ p.2.keys token, key ∉ q.2.keys token

namespace Script

/-- The whole stream. -/
def stream : Script → CallStream
  | create items => .create items true
  | result items => .result items true

/-- Elements that arrive are collected. -/
theorem foldl_record_createItem (name : String) (got more : List (Except Cause CreateRequest)) :
    (more.map (SessionEvent.createItem name)).foldl (fun stream e => e.record name stream)
      (some (CallStream.create got false)) = some (CallStream.create (got ++ more) false) := by
  induction more generalizing got with
  | nil => simp
  | cons item more ih =>
    have harrives : (SessionEvent.createItem name item).record name (some (.create got false)) =
        some (.create (got ++ [item]) false) := if_pos rfl
    rw [List.map_cons, List.foldl_cons, harrives, ih]
    simp

/-- Elements that arrive are collected. -/
theorem foldl_record_resultItem (name : String) (got more : List (Except Cause ResultRequest)) :
    (more.map (SessionEvent.resultItem name)).foldl (fun stream e => e.record name stream)
      (some (CallStream.result got false)) = some (CallStream.result (got ++ more) false) := by
  induction more generalizing got with
  | nil => simp
  | cons item more ih =>
    have harrives : (SessionEvent.resultItem name item).record name (some (.result got false)) =
        some (.result (got ++ [item]) false) := if_pos rfl
    rw [List.map_cons, List.foldl_cons, harrives, ih]
    simp

/-- A call is opened first, and only once. -/
theorem events_eq_cons (script : Script) (name : String) :
    ∃ first rest, script.events name = first :: rest ∧ ∀ e ∈ rest, e.opens = false := by
  cases script with
  | create items =>
    refine ⟨_, _, rfl, fun e he => ?_⟩
    rcases List.mem_append.1 he with he | he
    · obtain ⟨item, -, rfl⟩ := List.mem_map.1 he
      rfl
    · cases List.mem_singleton.1 he
      rfl
  | result items =>
    refine ⟨_, _, rfl, fun e he => ?_⟩
    rcases List.mem_append.1 he with he | he
    · obtain ⟨item, -, rfl⟩ := List.mem_map.1 he
      rfl
    · cases List.mem_singleton.1 he
      rfl

/-- Where a script has been played to its end, the whole stream has arrived. -/
theorem streamOf_events (script : Script) (name : String) :
    streamOf (script.events name) name = some script.stream := by
  cases script with
  | create items =>
    rw [events, streamOf, List.foldl_cons, List.foldl_append, SessionEvent.record, if_pos rfl,
      foldl_record_createItem]
    exact if_pos rfl
  | result items =>
    rw [events, streamOf, List.foldl_cons, List.foldl_append, SessionEvent.record, if_pos rfl,
      foldl_record_resultItem]
    exact if_pos rfl

/-- Where a script has been played in part, nothing has happened, or a beginning of the stream has
arrived. -/
theorem begins_of_isPrefix {script : Script} {name : String} {log : List SessionEvent}
    (h : log <+: script.events name) :
    log = [] ∨ ∃ stream, streamOf log name = some stream ∧ script.Begins stream := by
  cases script with
  | create items =>
    rw [events, List.prefix_cons_iff] at h
    rcases h with rfl | ⟨log, rfl, h⟩
    · exact .inl rfl
    · refine .inr ?_
      rcases List.prefix_concat_iff.1 h with rfl | h
      · exact ⟨_, streamOf_events (create items) name, List.prefix_rfl, fun _ => rfl⟩
      · obtain ⟨got, hgot, rfl⟩ := List.prefix_map_iff.1 h
        refine ⟨.create got false, ?_, hgot, nofun⟩
        rw [streamOf, List.foldl_cons, SessionEvent.record, if_pos rfl, foldl_record_createItem]
        rfl
  | result items =>
    rw [events, List.prefix_cons_iff] at h
    rcases h with rfl | ⟨log, rfl, h⟩
    · exact .inl rfl
    · refine .inr ?_
      rcases List.prefix_concat_iff.1 h with rfl | h
      · exact ⟨_, streamOf_events (result items) name, List.prefix_rfl, fun _ => rfl⟩
      · obtain ⟨got, hgot, rfl⟩ := List.prefix_map_iff.1 h
        refine ⟨.result got false, ?_, hgot, nofun⟩
        rw [streamOf, List.foldl_cons, SessionEvent.record, if_pos rfl, foldl_record_resultItem]
        rfl

end Script

namespace Plays

variable {scripts : List (String × Script)} {log : List SessionEvent} {e : SessionEvent}
  {name : String} {script : Script}

/-- What was played before was played in order. -/
theorem of_concat (h : Plays scripts (log ++ [e])) : Plays scripts log := by
  refine ⟨fun e' he' => h.named e' (by simp [he']), fun p hp => ?_⟩
  refine List.IsPrefix.trans ?_ (h.inOrder p hp)
  rw [eventsOf_concat]
  exact List.prefix_append _ _

/-- What has arrived for a call is the beginning of its script. -/
theorem begins (h : Plays scripts log) (hscript : (name, script) ∈ scripts) {stream : CallStream}
    (hstream : streamOf log name = some stream) : script.Begins stream := by
  rw [← streamOf_eventsOf] at hstream
  rcases Script.begins_of_isPrefix (h.inOrder _ hscript) with hnone | ⟨stream', hstream', hbegins⟩
  · rw [hnone] at hstream
    cases hstream
  · rw [hstream'] at hstream
    cases hstream
    exact hbegins

/-- What happens next to a call is the next event of its script. -/
theorem exists_events (h : Plays scripts (log ++ [e])) (hname : e.name? = some name)
    (hscript : (name, script) ∈ scripts) :
    ∃ left, script.events name = eventsOf log name ++ e :: left := by
  obtain ⟨left, hleft⟩ := h.inOrder _ hscript
  rw [eventsOf_concat, if_pos hname] at hleft
  exact ⟨left, by simpa using hleft.symm⟩

/-- No call is dropped, and the agent is not stopped. -/
theorem not_abort (h : Plays scripts (log ++ [e])) : e ≠ .stop ∧ ∀ name, e ≠ .abort name := by
  obtain ⟨⟨name, script⟩, hscript, hname⟩ := h.named e (by simp)
  obtain ⟨left, hleft⟩ := h.exists_events hname hscript
  have hmem : e ∈ script.events name := by simp [hleft]
  constructor
  · rintro rfl
    cases hname
  · rintro name' rfl
    cases script <;> simp [Script.events] at hmem

/-- A call is opened at the beginning of its script, and nowhere else. -/
theorem eventsOf_eq_nil (h : Plays scripts (log ++ [e])) (hopens : e.opens = true)
    (hname : e.name? = some name) (hscript : (name, script) ∈ scripts) :
    eventsOf log name = [] ∧ ∃ rest, script.events name = e :: rest := by
  obtain ⟨left, hleft⟩ := h.exists_events hname hscript
  obtain ⟨first, rest, hevents, hrest⟩ := script.events_eq_cons name
  cases hbefore : eventsOf log name with
  | nil =>
    rw [hbefore] at hleft
    exact ⟨rfl, left, hleft⟩
  | cons before log' =>
    rw [hbefore, hevents] at hleft
    have hmem : e ∈ rest := by
      rw [(List.cons.inj hleft).2]
      simp
    rw [hrest e hmem] at hopens
    cases hopens

end Plays

namespace PlaysOut

variable {scripts : List (String × Script)} {log : List SessionEvent}

theorem plays (h : PlaysOut scripts log) : Plays scripts log :=
  ⟨h.named, fun p hp => h.inOrder p hp ▸ List.prefix_rfl⟩

/-- The whole stream of each call has arrived. -/
theorem streamOf (h : PlaysOut scripts log) {name : String} {script : Script}
    (hscript : (name, script) ∈ scripts) : streamOf log name = some script.stream := by
  have hevents : eventsOf log name = script.events name := h.inOrder _ hscript
  rw [← streamOf_eventsOf, hevents, script.streamOf_events]

end PlaysOut

end Sidecar
