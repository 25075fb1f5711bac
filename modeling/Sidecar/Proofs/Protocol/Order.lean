import Mathlib.Computability.Language
import Sidecar.Protocol.Machine

/-!
# The order of a call as a language

A `Machine` looks its events up in the table of its `Grammar`, one after the other. The order such a
table stands for can also be said at once, as the set of the sequences that make up a whole call:
`creationOrder` and `ingestionOrder`. `Grammar.Validates` says what a machine makes of any sequence
of events where its table stands for an order: it lets through what can still become a whole call,
is at its end where a call is whole, and refuses everything from the first refusal on.

Each state of a table stands for the sequences that lead from it to the end
(`Grammar.completions`). A line of the table is an equation between these languages, and Arden's
lemma solves the equations of the states that repeat.
-/

open Computability

namespace Sidecar

variable {σ ε : Type} {grammar : Grammar σ ε}

/-! ## A machine and a whole sequence -/

namespace Machine

/-- What a machine answers to some events, one after the other. -/
def answers (m : Machine grammar) : List ε → List (Except OutOfOrder σ)
  | [] => []
  | event :: events => (m.fire event).1 :: answers (m.fire event).2 events

/-- The machine after some events. -/
def after (m : Machine grammar) (events : List ε) : Machine grammar :=
  events.foldl (fun m event => (m.fire event).2) m

/-- None of the events is refused. -/
def Accepts (m : Machine grammar) (events : List ε) : Prop :=
  ∀ answer ∈ m.answers events, ∃ state, answer = .ok state

end Machine

namespace Grammar

/-- The state to which some events lead, if the table has all of them. -/
def leadsTo? (grammar : Grammar σ ε) (state : σ) (events : List ε) : Option σ :=
  events.foldlM grammar.next? state

/-- The sequences that lead from a state to the end. -/
def completions (grammar : Grammar σ ε) (state : σ) : Language ε :=
  {events | ∃ last, grammar.leadsTo? state events = some last ∧ grammar.isTerminal last = true}

/-- A grammar validates an order. The sequences of the order are those that its machine accepts as a
whole and ends with. What the machine accepts is what a sequence of the order can begin with, so the
first refusal comes as early as it can. From the first refusal on every event is refused, each under
its own name and all in the state that was reached before, in which the machine stays without being
at its end. After a sequence of the order every event is refused. -/
structure Validates (grammar : Grammar σ ε) (order : Language ε) : Prop where
  accepts : ∀ events : List ε,
    ((Machine.start : Machine grammar).Accepts events ∧
      ((Machine.start : Machine grammar).after events).isTerminal = true) ↔ events ∈ order
  begins : ∀ events : List ε,
    (Machine.start : Machine grammar).Accepts events ↔ ∃ more, events ++ more ∈ order
  refuses : ∀ (before : List ε) (event : ε) (more : List ε),
    (Machine.start : Machine grammar).Accepts before →
    ¬ (Machine.start : Machine grammar).Accepts (before ++ [event]) →
      let reached := (Machine.start : Machine grammar).after before
      let final := (Machine.start : Machine grammar).after (before ++ event :: more)
      (Machine.start : Machine grammar).answers (before ++ event :: more) =
          (Machine.start : Machine grammar).answers before ++
            (event :: more).map (fun refused => .error ⟨grammar.name,
              grammar.stateName reached.state, grammar.eventName refused⟩) ∧
        final.state = reached.state ∧ final.isTerminal = false
  closed : ∀ events ∈ order, ∀ event : ε,
    (((Machine.start : Machine grammar).after events).fire event).1 =
      .error (((Machine.start : Machine grammar).after events).refusal event)

end Grammar

namespace Machine

variable {m : Machine grammar} {event : ε}

@[simp] theorem answers_nil (m : Machine grammar) : m.answers [] = [] := rfl

@[simp] theorem answers_cons (m : Machine grammar) (event : ε) (events : List ε) :
    m.answers (event :: events) = (m.fire event).1 :: (m.fire event).2.answers events := rfl

@[simp] theorem after_nil (m : Machine grammar) : m.after [] = m := rfl

@[simp] theorem after_cons (m : Machine grammar) (event : ε) (events : List ε) :
    m.after (event :: events) = (m.fire event).2.after events := rfl

theorem after_append (m : Machine grammar) (events more : List ε) :
    m.after (events ++ more) = (m.after events).after more := List.foldl_append

theorem answers_append (m : Machine grammar) (events more : List ε) :
    m.answers (events ++ more) = m.answers events ++ (m.after events).answers more := by
  induction events generalizing m with
  | nil => rfl
  | cons event events ih => rw [List.cons_append, answers_cons, ih, answers_cons, after_cons,
      List.cons_append]

theorem accepts_append {events more : List ε} :
    m.Accepts (events ++ more) ↔ m.Accepts events ∧ (m.after events).Accepts more := by
  simp only [Accepts, answers_append, List.forall_mem_append]

/-! ## One event -/

/-- An event that the table has is taken. -/
theorem fire_of_next? {state : σ} (hfailed : m.failed = false)
    (hnext : grammar.next? m.state event = some state) :
    m.fire event = (.ok state, ⟨state, false⟩) := by
  obtain ⟨at_, failed⟩ := m
  cases hfailed
  simp only [fire, next?, Bool.false_eq_true, if_false, hnext]

/-- An event that the table has not is refused, and so is every event after a refusal. -/
theorem fire_of_refused (h : m.failed = true ∨ grammar.next? m.state event = none) :
    m.fire event = (.error (m.refusal event), ⟨m.state, true⟩) := by
  have hnext : m.next? event = none := by
    unfold next?
    rcases h with hfailed | hnone
    · rw [if_pos hfailed]
    · rw [hnone, ite_self]
  simp only [fire, hnext]

/-! ## After a refusal -/

/-- A machine that has refused an event refuses all that follow, and stays where it is. -/
theorem run_of_failed (hfailed : m.failed = true) (events : List ε) :
    m.answers events = events.map (fun event => .error (m.refusal event)) ∧ m.after events = m := by
  induction events with
  | nil => exact ⟨rfl, rfl⟩
  | cons event events ih =>
    have hsame : (⟨m.state, true⟩ : Machine grammar) = m := by rw [← hfailed]
    rw [answers_cons, after_cons, fire_of_refused (.inl hfailed), hsame, ih.1]
    exact ⟨rfl, ih.2⟩

/-! ## What is accepted -/

theorem accepts_cons {state : σ} {events : List ε} (hfailed : m.failed = false)
    (hnext : grammar.next? m.state event = some state) :
    m.Accepts (event :: events) ↔ (⟨state, false⟩ : Machine grammar).Accepts events := by
  simp [Accepts, fire_of_next? hfailed hnext]

/-- Where the table leads the machine goes, and it accepts everything on the way. -/
theorem run_of_leadsTo? {state : σ} {events : List ε} (hfailed : m.failed = false)
    (hleads : grammar.leadsTo? m.state events = some state) :
    m.Accepts events ∧ m.after events = ⟨state, false⟩ := by
  induction events generalizing m with
  | nil =>
    obtain ⟨here, failed⟩ := m
    cases hfailed
    cases hleads
    exact ⟨nofun, rfl⟩
  | cons event events ih =>
    simp only [Grammar.leadsTo?, List.foldlM_cons, Option.bind_eq_bind,
      Option.bind_eq_some_iff] at hleads
    obtain ⟨next, hnext, hrest⟩ := hleads
    obtain ⟨haccepts, hafter⟩ := ih (m := ⟨next, false⟩) rfl hrest
    rw [accepts_cons hfailed hnext, after_cons, fire_of_next? hfailed hnext]
    exact ⟨haccepts, hafter⟩

/-- The machine accepts what the table has. -/
theorem accepts_iff_leadsTo? {events : List ε} (hfailed : m.failed = false) :
    m.Accepts events ↔ ∃ state, grammar.leadsTo? m.state events = some state := by
  refine ⟨fun haccepts => ?_, fun ⟨state, hleads⟩ => (run_of_leadsTo? hfailed hleads).1⟩
  induction events generalizing m with
  | nil => exact ⟨m.state, rfl⟩
  | cons event events ih =>
    cases hnext : grammar.next? m.state event with
    | none =>
      obtain ⟨state, hstate⟩ := haccepts (m.fire event).1 (List.mem_cons_self ..)
      rw [fire_of_refused (.inr hnext)] at hstate
      cases hstate
    | some next =>
      obtain ⟨state, hleads⟩ :=
        ih (m := ⟨next, false⟩) rfl ((accepts_cons hfailed hnext).1 haccepts)
      exact ⟨state, by simpa [Grammar.leadsTo?, hnext] using hleads⟩

end Machine

/-! ## The languages of the states -/

namespace Grammar

/-- No event is left where the state is the end. -/
theorem nil_mem_completions {state : σ} :
    [] ∈ grammar.completions state ↔ grammar.isTerminal state = true := by
  constructor
  · rintro ⟨last, ⟨⟩, hlast⟩
    exact hlast
  · exact fun hterminal => ⟨state, rfl, hterminal⟩

/-- The first event leads to the state that the rest is to be completed from. -/
theorem cons_mem_completions {state : σ} {event : ε} {events : List ε} :
    event :: events ∈ grammar.completions state ↔
      ∃ next, grammar.next? state event = some next ∧ events ∈ grammar.completions next := by
  constructor
  · rintro ⟨last, hleads, hlast⟩
    simp only [leadsTo?, List.foldlM_cons, Option.bind_eq_bind, Option.bind_eq_some_iff] at hleads
    obtain ⟨next, hnext, hrest⟩ := hleads
    exact ⟨next, hnext, last, hrest, hlast⟩
  · rintro ⟨next, hnext, last, hrest, hlast⟩
    refine ⟨last, ?_, hlast⟩
    simpa [leadsTo?, hnext] using hrest

/-- What leads to a state is completed by what completes that state. -/
theorem append_mem_completions {state last : σ} {events : List ε}
    (hleads : grammar.leadsTo? state events = some last) (more : List ε) :
    events ++ more ∈ grammar.completions state ↔ more ∈ grammar.completions last := by
  have happend : grammar.leadsTo? state (events ++ more) = grammar.leadsTo? last more := by
    rw [leadsTo?, List.foldlM_append]
    show (grammar.leadsTo? state events).bind (grammar.leadsTo? · more) = _
    rw [hleads, Option.bind_some]
  show (∃ final, grammar.leadsTo? state (events ++ more) = some final ∧ _) ↔ _
  rw [happend]
  rfl

/-- A grammar validates the order that its first state stands for, if every state can be completed
and nothing follows the end. -/
theorem validates_of_completions {order : Language ε}
    (horder : grammar.completions grammar.start = order)
    (hcompletable : ∀ state, ∃ events, events ∈ grammar.completions state)
    (hterminal : ∀ state event, grammar.isTerminal state = true →
      grammar.next? state event = none) :
    grammar.Validates order := by
  subst horder
  have haccepts (events : List ε) :
      (Machine.start : Machine grammar).Accepts events ↔ ∃ state,
        grammar.leadsTo? grammar.start events = some state :=
    Machine.accepts_iff_leadsTo? rfl
  have hafter {events : List ε} {state : σ}
      (hleads : grammar.leadsTo? grammar.start events = some state) :
      (Machine.start : Machine grammar).after events = ⟨state, false⟩ :=
    (Machine.run_of_leadsTo? rfl hleads).2
  refine ⟨?_, ?_, ?_, ?_⟩
  · intro events
    constructor
    · rintro ⟨hall, hlast⟩
      obtain ⟨state, hleads⟩ := (haccepts events).1 hall
      rw [hafter hleads] at hlast
      exact ⟨state, hleads, by simpa [Machine.isTerminal] using hlast⟩
    · rintro ⟨last, hleads, hlast⟩
      rw [hafter hleads]
      exact ⟨(haccepts events).2 ⟨last, hleads⟩, by simpa [Machine.isTerminal] using hlast⟩
  · intro events
    rw [haccepts]
    constructor
    · rintro ⟨state, hleads⟩
      obtain ⟨more, hmore⟩ := hcompletable state
      exact ⟨more, (append_mem_completions hleads more).2 hmore⟩
    · rintro ⟨more, last, hleads, -⟩
      rw [leadsTo?, List.foldlM_append] at hleads
      obtain ⟨state, hstate, -⟩ := Option.bind_eq_some_iff.1 hleads
      exact ⟨state, hstate⟩
  · intro before event more hbefore hrefused
    obtain ⟨state, hleads⟩ := (haccepts before).1 hbefore
    have hnext : grammar.next? state event = none := by
      refine Option.eq_none_iff_forall_ne_some.2 fun next hnext => hrefused ?_
      refine Machine.accepts_append.2 ⟨hbefore, ?_⟩
      rw [hafter hleads, Machine.accepts_cons rfl hnext]
      exact nofun
    have hfire := Machine.fire_of_refused (m := (⟨state, false⟩ : Machine grammar)) (.inr hnext)
    obtain ⟨hanswers, hstays⟩ :=
      Machine.run_of_failed (m := (⟨state, true⟩ : Machine grammar)) rfl more
    simp only [Machine.answers_append, Machine.after_append, hafter hleads, Machine.answers_cons,
      Machine.after_cons, hfire, hanswers, hstays]
    exact ⟨rfl, trivial, rfl⟩
  · rintro events ⟨last, hleads, hlast⟩ event
    rw [hafter hleads, Machine.fire_of_refused (.inr (hterminal last event hlast))]

/-! ### The equations of a table -/

/-- Nothing completes the end but the empty sequence. -/
theorem completions_terminal {state : σ} (hterminal : grammar.isTerminal state = true)
    (htable : ∀ event, grammar.next? state event = none) : grammar.completions state = 1 := by
  ext events
  rw [Language.mem_one]
  cases events with
  | nil => exact iff_of_true (nil_mem_completions.2 hterminal) rfl
  | cons event events =>
    refine iff_of_false (fun hmem => ?_) (List.cons_ne_nil _ _)
    obtain ⟨next, hnext, -⟩ := cons_mem_completions.1 hmem
    rw [htable] at hnext
    cases hnext

/-- A sequence that begins with a certain event and goes on in a language. -/
theorem cons_mem_singleton_mul {event first : ε} {events : List ε} {language : Language ε} :
    event :: events ∈ ({[first]} : Language ε) * language ↔ event = first ∧ events ∈ language := by
  rw [Language.mem_mul]
  constructor
  · rintro ⟨_, rfl, rest, hrest, heq⟩
    cases heq
    exact ⟨rfl, hrest⟩
  · rintro ⟨rfl, hrest⟩
    exact ⟨[event], rfl, events, hrest, rfl⟩

theorem nil_notMem_singleton {first : ε} : [] ∉ ({[first]} : Language ε) :=
  fun h => List.cons_ne_nil first [] h.symm

theorem nil_notMem_singleton_mul {first : ε} {language : Language ε} :
    [] ∉ ({[first]} : Language ε) * language := by
  rw [Language.mem_mul]
  rintro ⟨_, rfl, _, -, heq⟩
  cases heq

/-- A state with one line in the table. -/
theorem completions_of_line {state next : σ} {event : ε}
    (hterminal : grammar.isTerminal state = false)
    (htable : ∀ e s, grammar.next? state e = some s ↔ e = event ∧ s = next) :
    grammar.completions state = {[event]} * grammar.completions next := by
  ext events
  cases events with
  | nil =>
    rw [nil_mem_completions, hterminal]
    exact iff_of_false nofun nil_notMem_singleton_mul
  | cons first events =>
    rw [cons_mem_completions, cons_mem_singleton_mul]
    simp [htable]

/-- A state with two lines in the table. -/
theorem completions_of_lines {state next next' : σ} {event event' : ε}
    (hterminal : grammar.isTerminal state = false)
    (htable : ∀ e s, grammar.next? state e = some s ↔
      e = event ∧ s = next ∨ e = event' ∧ s = next') :
    grammar.completions state =
      {[event]} * grammar.completions next + {[event']} * grammar.completions next' := by
  ext events
  rw [Language.mem_add]
  cases events with
  | nil =>
    rw [nil_mem_completions, hterminal]
    exact iff_of_false nofun (not_or.2 ⟨nil_notMem_singleton_mul, nil_notMem_singleton_mul⟩)
  | cons first events =>
    rw [cons_mem_completions, cons_mem_singleton_mul, cons_mem_singleton_mul]
    simp only [htable, or_and_right, exists_or, and_assoc, exists_and_left, exists_eq_left]

end Grammar

/-! ## The two orders -/

/-- The order of a creation call: the request, then any number of tasks, each of them a header and
its data, and at last the announcement that there are no more. -/
def creationOrder : Language CreationEvent :=
  {[.initRequest]} * ({[.header]} * {[.data]}∗ * {[.dataComplete]})∗ * {[.lastTask]}

/-- The order of a result call: the key, its data, and at last the announcement that this is all. -/
def ingestionOrder : Language IngestionEvent :=
  {[.initKey]} * {[.data]}∗ * {[.dataComplete]} * {[.lastResult]}

theorem completions_taskCreation : taskCreation.completions taskCreation.start = creationOrder := by
  have hidle : taskCreation.completions .idle =
      {[.initRequest]} * taskCreation.completions .awaitingHeaderOrEnd :=
    Grammar.completions_of_line rfl (by rintro ⟨⟩ ⟨⟩ <;> simp [taskCreation])
  have hawaiting : taskCreation.completions .awaitingHeaderOrEnd =
      {[.header]} * taskCreation.completions .receivingChunks +
        {[.lastTask]} * taskCreation.completions .terminal :=
    Grammar.completions_of_lines rfl (by rintro ⟨⟩ ⟨⟩ <;> simp [taskCreation])
  have hreceiving : taskCreation.completions .receivingChunks =
      {[.data]} * taskCreation.completions .receivingChunks +
        {[.dataComplete]} * taskCreation.completions .awaitingHeaderOrEnd :=
    Grammar.completions_of_lines rfl (by rintro ⟨⟩ ⟨⟩ <;> simp [taskCreation])
  have hterminal : taskCreation.completions .terminal = 1 :=
    Grammar.completions_terminal rfl (by rintro ⟨⟩ <;> rfl)
  rw [Language.self_eq_mul_add_iff Grammar.nil_notMem_singleton] at hreceiving
  rw [hreceiving, hterminal, mul_one, ← mul_assoc, ← mul_assoc,
    Language.self_eq_mul_add_iff
      (by rw [mul_assoc]; exact Grammar.nil_notMem_singleton_mul)] at hawaiting
  show taskCreation.completions .idle = creationOrder
  rw [hidle, hawaiting, ← mul_assoc]
  rfl

theorem completions_resultIngestion :
    resultIngestion.completions resultIngestion.start = ingestionOrder := by
  have hidle : resultIngestion.completions .idle =
      {[.initKey]} * resultIngestion.completions .receivingChunks :=
    Grammar.completions_of_line rfl (by rintro ⟨⟩ ⟨⟩ <;> simp [resultIngestion])
  have hreceiving : resultIngestion.completions .receivingChunks =
      {[.data]} * resultIngestion.completions .receivingChunks +
        {[.dataComplete]} * resultIngestion.completions .awaitingEnd :=
    Grammar.completions_of_lines rfl (by rintro ⟨⟩ ⟨⟩ <;> simp [resultIngestion])
  have hawaiting : resultIngestion.completions .awaitingEnd =
      {[.lastResult]} * resultIngestion.completions .terminal :=
    Grammar.completions_of_line rfl (by rintro ⟨⟩ ⟨⟩ <;> simp [resultIngestion])
  have hterminal : resultIngestion.completions .terminal = 1 :=
    Grammar.completions_terminal rfl (by rintro ⟨⟩ <;> rfl)
  rw [Language.self_eq_mul_add_iff Grammar.nil_notMem_singleton, hawaiting, hterminal,
    mul_one] at hreceiving
  show resultIngestion.completions .idle = ingestionOrder
  rw [hidle, hreceiving, ← mul_assoc, ← mul_assoc]
  rfl

/-- **The two tables are the two orders.** The machine of a creation call lets through exactly what
a creation call can begin with, is at its end exactly where the call is whole, and refuses
everything from the first refusal on; and so does the machine of a result call. -/
theorem calls_validate_orders :
    taskCreation.Validates creationOrder ∧ resultIngestion.Validates ingestionOrder := by
  constructor
  · refine Grammar.validates_of_completions completions_taskCreation ?_ ?_
    · intro state
      cases state with
      | idle => exact ⟨[.initRequest, .lastTask], .terminal, rfl, rfl⟩
      | awaitingHeaderOrEnd => exact ⟨[.lastTask], .terminal, rfl, rfl⟩
      | receivingChunks => exact ⟨[.dataComplete, .lastTask], .terminal, rfl, rfl⟩
      | terminal => exact ⟨[], .terminal, rfl, rfl⟩
    · intro state event hterminal
      obtain rfl : state = .terminal := by simpa [taskCreation] using hterminal
      cases event <;> rfl
  · refine Grammar.validates_of_completions completions_resultIngestion ?_ ?_
    · intro state
      cases state with
      | idle => exact ⟨[.initKey, .dataComplete, .lastResult], .terminal, rfl, rfl⟩
      | receivingChunks => exact ⟨[.dataComplete, .lastResult], .terminal, rfl, rfl⟩
      | awaitingEnd => exact ⟨[.lastResult], .terminal, rfl, rfl⟩
      | terminal => exact ⟨[], .terminal, rfl, rfl⟩
    · intro state event hterminal
      obtain rfl : state = .terminal := by simpa [resultIngestion] using hterminal
      cases event <;> rfl

end Sidecar
