import Sidecar.Proofs.Session.Heeding

/-!
# A full queue holds up nobody for good

The queue of headers is bounded, and its end takes a slot like a header does. A creation call that
finds it full waits, while its submission reads no further header before the payload that the same
call still has to feed. `Session.creation_never_blocks` says that the two do not wait for each
other: in whatever order the calls of a session have moved, where nothing moves any more a creation
call has its outcome, or it waits for the next element of its stream and nothing else.
-/

namespace Sidecar

/-- The call waits for the next element of its stream: it has read all that has arrived, and more
may come. -/
structure CreateCall.AwaitsItem (call : CreateCall) : Prop where
  phase : call.phase = .reading
  inbox : call.inbox = .empty

/-- A call that heeds its stream and cannot move is over, or nothing is decided by its stream and it
waits for more. -/
theorem Call.Heeds.rests {agent : Agent} {store : Store} {c : CreateCall} {stream : CallStream}
    (h : (Call.create c).Heeds agent stream) (hrun : agent.stopped = false)
    (hidle : ∀ r, ¬ c.Moves agent (.ofStore store) r) :
    ∃ items ended, stream = .create items ended ∧
      ((∃ result, c.result? = some result) ∨
        c.AwaitsItem ∧ ¬ (CallStream.create items ended).Decides agent.token) := by
  cases stream with
  | result items ended => cases h
  | create items ended =>
    refine ⟨items, ended, rfl, ?_⟩
    rcases h with ⟨⟨result, hphase⟩, -⟩ | ⟨b, hpursues⟩
    · exact .inl ⟨result, by simp [CreateCall.result?, hphase]⟩
    · obtain ⟨-, hended, hinbox, -, hphase, hverdict⟩ := hpursues.rests hrun hidle
      refine .inr ⟨⟨hphase, hinbox⟩, ?_⟩
      rintro (hend | hdecided)
      · rw [hended] at hend
        cases hend
      · exact hdecided _ _ hverdict

namespace Session

/-- **A creation call is never blocked for good.** Whatever the capacity of the queue of headers,
the limit on payloads and what is stored already, and however the events of a log that does not stop
the agent and the moves of its calls are ordered: the moves come to an end, and where they do, a
creation call has its outcome, or it waits for the next element of its stream, which decides nothing
so far. So once what decides a call has arrived, the call comes to its outcome. -/
theorem creation_never_blocks (identity : Identity) (token : Token) (capacity : Nat)
    (created : List CreatedTask) (store : Store) {log : List SessionEvent}
    (hlog : wasStopped log = false) :
    (∃ s, Runs ⟨identity, token, capacity, created, false⟩ store log [] s) ∧
    ∀ answers s, Runs ⟨identity, token, capacity, created, false⟩ store log answers s →
      (∀ schedule : Nat → Session, schedule 0 = s →
        ∃ n, ¬ (schedule n).Moves (schedule (n + 1))) ∧
      (∃ more t, s.Settles t ∧
        Runs ⟨identity, token, capacity, created, false⟩ store log (answers ++ more) t) ∧
      ((∀ t, ¬ s.Moves t) →
        (∀ name c, s.call? name = some (.create c) →
          ∃ items ended, streamOf log name = some (.create items ended) ∧
            ((∃ result, c.result? = some result) ∨
              c.AwaitsItem ∧ ¬ (CallStream.create items ended).Decides token)) ∧
        ∀ name items ended, streamOf log name = some (.create items ended) →
          (CallStream.create items ended).Decides token →
          ∃ c result, s.call? name = some (.create c) ∧ c.result? = some result) := by
  refine ⟨exists_runs _ store log, ?_⟩
  intro answers s hruns
  refine ⟨fun schedule _ => exists_not_moves schedule, ?_, ?_⟩
  · obtain ⟨more, hruns'⟩ := hruns.comes s.settles_run.comes
    exact ⟨more, s.run, s.settles_run, hruns'⟩
  intro hidle
  have hheeds := hruns.heeds rfl hlog
  have hrests : ∀ name c, (name, Call.create c) ∈ s.calls →
      ∃ items ended, streamOf log name = some (.create items ended) ∧
        ((∃ result, c.result? = some result) ∨
          c.AwaitsItem ∧ ¬ (CallStream.create items ended).Decides token) := by
    intro name c hmem
    obtain ⟨stream, hstream, hcall⟩ := hheeds.calls _ hmem
    obtain ⟨created', store', -, -, hnot⟩ := hheeds.not_moves_of_idle hidle hmem
    obtain ⟨items, ended, rfl, hends⟩ :=
      (hcall.setCreated created').rests rfl fun r hmove => hnot _ (.create hmove)
    exact ⟨items, ended, hstream, hends⟩
  refine ⟨fun name c hcall => hrests name c ((call?_eq_some_iff hheeds.names).1 hcall), ?_⟩
  intro name items ended hstream hdecides
  obtain ⟨call, hmem⟩ := hheeds.opened name _ hstream
  obtain ⟨stream, hstream', hcall⟩ := hheeds.calls _ hmem
  cases hstream.symm.trans hstream'
  cases call with
  | result c => cases hcall
  | create c =>
    obtain ⟨items', ended', hstream'', hends⟩ := hrests name c hmem
    cases hstream.symm.trans hstream''
    obtain ⟨result, hresult⟩ := hends.resolve_right fun hwaits => hwaits.2 hdecides
    exact ⟨c, result, (call?_eq_some_iff hheeds.names).2 hmem, hresult⟩

/-- Two tasks through a queue of headers that has room for one, with a payload over the limit:
wherever nothing moves any more after the last message, the call has its outcome. -/
theorem creation_never_blocks_at_one_slot :
    let items : List (Except Cause CreateRequest) := [.ok (.init "secret" none),
      .ok (.header "secret" ⟨"a", [], []⟩), .ok (.data "secret" [1, 2]),
      .ok (.dataComplete "secret"), .ok (.header "secret" ⟨"b", [], []⟩),
      .ok (.dataComplete "secret"), .ok (.lastTask "secret")]
    let log := .openCreate "call" :: items.map (.createItem "call")
    wasStopped log = false ∧
      ∃ answers s c result, Runs ⟨⟨"session", "parent"⟩, ⟨"secret"⟩, 0, [], false⟩ (.empty 1) log
        answers s ∧ s.call? "call" = some (.create c) ∧ c.result? = some result := by
  intro items log
  have hlog : wasStopped log = false := rfl
  obtain ⟨⟨s, hs⟩, hall⟩ := creation_never_blocks ⟨"session", "parent"⟩ ⟨"secret"⟩ 0 []
    (.empty 1) hlog
  obtain ⟨-, ⟨more, t, hsettles, ht⟩, -⟩ := hall _ s hs
  obtain ⟨-, -, hends⟩ := hall _ t ht
  have hdecides : (CallStream.create items false).Decides ⟨"secret"⟩ := by
    refine .inr ?_
    have hcomplete : (match scanRequests ⟨"secret"⟩ .idle .empty items with
        | .complete b => b.ids | _ => []) = ["a", "b"] := by decide +kernel
    intro state b hscan
    rw [hscan] at hcomplete
    cases hcomplete
  obtain ⟨c, result, hcall, hresult⟩ := (hends hsettles.idle).2 "call" items false rfl hdecides
  exact ⟨hlog, _, t, c, result, ht, hcall, hresult⟩

end Session

end Sidecar
