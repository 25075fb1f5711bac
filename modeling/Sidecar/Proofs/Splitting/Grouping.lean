import Mathlib.Data.List.Induction
import Sidecar.Proofs.Splitting.Tracking

/-!
# Groups read off the history

The `Tracker` remembers a tag and one flag. Which reply completes a group can also be said without
it, from what the reply is and from the earlier replies of its group (`CompletesGroup`). Here the
two are tied together: the tracker's memory always is what the replies of the open group amount to
(`Tracker.Remembers`), one reply keeps this so (`Tracker.Remembers.observe`), and so the boundaries
of every stream that is accepted are the ones its history calls for
(`Tracker.boundaries_observeAll`).
-/

namespace Sidecar

/-! ## What completes a group -/

/-- A reply that announces a large task as the last one. -/
def WorkerReply.AnnouncesLast (reply : WorkerReply) : Prop :=
  ∃ task, reply.kind = some (.createLargeTask (some (.initTask task))) ∧ task.lastTask = true

/-- The kinds of replies that complete a group. The last piece of a task's payload does so if the
last task was announced before. -/
inductive ReplyKind.Completes (announced : Prop) : ReplyKind → Prop
  | resource (key : String) : Completes announced (.resource key)
  | commonData (key : String) : Completes announced (.commonData key)
  | directData (key : String) : Completes announced (.directData key)
  | createSmallTask (batch : SmallTaskBatch) : Completes announced (.createSmallTask batch)
  | outputError (message : String) :
      Completes announced (.output (some (.init (some (.error message)))))
  | outputInit {fragment : Fragment} (hlast : fragment.last = true) :
      Completes announced (.output (some (.init (some (.fragment fragment)))))
  | outputData {fragment : Fragment} (hlast : fragment.last = true) :
      Completes announced (.output (some (.data fragment)))
  | resultInit {key : String} {fragment : Fragment} (hlast : fragment.last = true) :
      Completes announced (.result (some (.init key fragment)))
  | resultData {fragment : Fragment} (hlast : fragment.last = true) :
      Completes announced (.result (some (.data fragment)))
  | wholeTask {task : LargeTask} (hcomplete : task.payloadComplete = true)
      (hlast : task.lastTask = true) :
      Completes announced (.createLargeTask (some (.initTask task)))
  | lastPayload {part : PayloadPart} (hcomplete : part.complete = true) (hannounced : announced) :
      Completes announced (.createLargeTask (some (.taskPayload part)))

/-- A reply completes the group that begins with the given earlier replies. -/
def CompletesGroup (earlier : List WorkerReply) (reply : WorkerReply) : Prop :=
  ∃ kind, reply.kind = some kind ∧ kind.Completes (∃ other ∈ earlier, other.AnnouncesLast)

namespace Tracker

/-! ## One reply -/

/-- A part of the creation of large tasks completes it as its history calls for. -/
theorem largeTaskStep_fst {armed : Bool} {announced : Prop} (harmed : armed = true ↔ announced)
    (part : LargeTaskPart) :
    (largeTaskStep armed part).1 = true ↔
      (ReplyKind.createLargeTask (some part)).Completes announced := by
  cases part with
  | initRequest options => exact iff_of_false nofun nofun
  | initTask task =>
    have hstep : (largeTaskStep armed (.initTask task)).1 = true ↔
        task.lastTask = true ∧ task.payloadComplete = true := by
      simp only [largeTaskStep]
      split <;> simp_all
    rw [hstep]
    exact ⟨fun h => .wholeTask h.2 h.1, fun | .wholeTask hcomplete hlast => ⟨hlast, hcomplete⟩⟩
  | taskPayload part =>
    show (part.complete && armed) = true ↔ _
    rw [Bool.and_eq_true, harmed]
    exact ⟨fun h => .lastPayload h.1 h.2, fun | .lastPayload hcomplete hann => ⟨hcomplete, hann⟩⟩

/-- A part that does not complete the creation may announce the last task. -/
theorem largeTaskStep_snd {armed : Bool} {part : LargeTaskPart}
    (h : (largeTaskStep armed part).1 = false) :
    (largeTaskStep armed part).2 = true ↔
      armed = true ∨ ∃ task, part = .initTask task ∧ task.lastTask = true := by
  cases part with
  | initRequest options => simp [largeTaskStep]
  | taskPayload part => simp [largeTaskStep]
  | initTask task =>
    simp only [largeTaskStep] at h ⊢
    split at h
    · cases h
    · simp [*]

/-- A reply completes its group as its history calls for. -/
theorem completion_fst {armed : Bool} {announced : Prop} (harmed : armed = true ↔ announced)
    {kind : ReplyKind} {done : Bool × Bool} (h : completion armed kind = .ok done) :
    done.1 = true ↔ kind.Completes announced := by
  unfold completion at h
  split at h <;> cases h
  · exact iff_of_true rfl (.outputError _)
  · exact ⟨.outputInit, fun | .outputInit hlast => hlast⟩
  · exact ⟨.outputData, fun | .outputData hlast => hlast⟩
  · exact ⟨.resultInit, fun | .resultInit hlast => hlast⟩
  · exact ⟨.resultData, fun | .resultData hlast => hlast⟩
  · exact largeTaskStep_fst harmed _
  · exact iff_of_true rfl (.resource _)
  · exact iff_of_true rfl (.commonData _)
  · exact iff_of_true rfl (.directData _)
  · exact iff_of_true rfl (.createSmallTask _)

/-- A reply that does not complete its group may announce the last task. -/
theorem completion_snd {armed : Bool} {kind : ReplyKind} {done : Bool × Bool}
    (h : completion armed kind = .ok done) (hopen : done.1 = false) :
    done.2 = true ↔ armed = true ∨
      ∃ task, kind = .createLargeTask (some (.initTask task)) ∧ task.lastTask = true := by
  unfold completion at h
  split at h <;> cases h <;> try simp
  rw [largeTaskStep_snd hopen]

/-! ## The open group -/

/-- What the tracker remembers of a stream is what the replies of its open group amount to: the tag
they share, and whether one of them announces the last task. -/
structure Remembers (tracker : Tracker) (group : List WorkerReply) : Prop where
  opened : tracker.opened.isSome = !group.isEmpty
  tag : ∀ reply ∈ group, reply.tag? = tracker.opened
  armed : tracker.lastTaskArmed = true ↔ ∃ reply ∈ group, reply.AnnouncesLast

namespace Remembers

variable {tracker tracker' : Tracker} {group : List WorkerReply} {reply : WorkerReply}
  {boundary : Boundary}

/-- At the beginning no group is open. -/
theorem start : Remembers Tracker.start [] := ⟨rfl, by simp, by simp [Tracker.start]⟩

/-- No group is open before its first reply. -/
theorem eq_nil (h : tracker.Remembers group) (hopened : tracker.opened = none) : group = [] := by
  have hempty := h.opened
  rw [hopened] at hempty
  simpa using hempty

theorem ne_nil {tag : ReplyTag} (h : tracker.Remembers group)
    (hopened : tracker.opened = some tag) : group ≠ [] := by
  have hempty := h.opened
  rw [hopened] at hempty
  simpa using hempty

/-- A tracker with no open group is one that has seen nothing. -/
theorem eq_start (h : tracker.Remembers []) : tracker = Tracker.start := by
  obtain ⟨opened, armed⟩ := tracker
  have hopened : opened = none := by simpa using h.opened
  have harmed : armed = false := by simpa using h.armed
  rw [hopened, harmed]
  rfl

end Remembers

/-- A reply that belongs with the earlier ones of its group is decided by its history, and the
tracker remembers it with them. -/
theorem closing_remembers {starts armed : Bool} {group : List WorkerReply} {reply : WorkerReply}
    {kind : ReplyKind} {boundary : Boundary} {tracker' : Tracker}
    (hkind : reply.kind = some kind) (htag : ∀ other ∈ group, other.tag? = some kind.tag)
    (harmed : armed = true ↔ ∃ other ∈ group, other.AnnouncesLast)
    (h : closing starts armed kind = .ok (boundary, tracker')) :
    (boundary.completes = true ↔ CompletesGroup group reply) ∧
      tracker'.Remembers (if boundary.completes then [] else group ++ [reply]) := by
  unfold closing at h
  cases hcompletion : completion armed kind with
  | error violation =>
    rw [hcompletion] at h
    cases h
  | ok done =>
    rw [hcompletion] at h
    cases h
    constructor
    · simpa [CompletesGroup, hkind] using completion_fst harmed hcompletion
    · cases hdone : done.1 with
      | true => exact .start
      | false =>
        refine ⟨by simp, ?_, ?_⟩
        · intro other hother
          rcases List.mem_append.1 hother with hearlier | hlast
          · exact htag other hearlier
          · rw [List.mem_singleton.1 hlast]
            simp [WorkerReply.tag?, hkind]
        · have hannounces : reply.AnnouncesLast ↔
              ∃ task, kind = .createLargeTask (some (.initTask task)) ∧ task.lastTask = true := by
            simp [WorkerReply.AnnouncesLast, hkind]
          show done.2 = true ↔ _
          rw [completion_snd hcompletion hdone, harmed, ← hannounces]
          simp [or_and_right, exists_or]

namespace Remembers

/-- An accepted reply belongs to the open group, or opens one where none is. In both cases it is
decided by its history alone whether it completes the group. -/
theorem observe {tracker tracker' : Tracker} {group : List WorkerReply} {reply : WorkerReply}
    {boundary : Boundary} (h : tracker.Remembers group)
    (hobserve : tracker.observe reply = .ok (boundary, tracker')) :
    (boundary.starts = true ↔ group = []) ∧
      (boundary.completes = true ↔ CompletesGroup group reply) ∧
      (∃ tag, reply.tag? = some tag ∧ ∀ other ∈ group, other.tag? = some tag) ∧
      tracker'.Remembers (if boundary.completes then [] else group ++ [reply]) := by
  have hstarts : boundary.starts = tracker.opened.isNone := (observe_boundary hobserve).1
  rw [observe_eq] at hobserve
  cases hkind : reply.kind with
  | none =>
    rw [hkind] at hobserve
    cases hobserve
  | some kind =>
    have htag : reply.tag? = some kind.tag := by simp [WorkerReply.tag?, hkind]
    simp only [hkind] at hobserve
    split at hobserve
    next hopened =>
      obtain rfl := h.eq_nil hopened
      have hclosing := closing_remembers hkind (fun _ hother => absurd hother List.not_mem_nil)
        (by simp) hobserve
      exact ⟨by simp [hstarts, hopened], hclosing.1, ⟨_, htag, by simp⟩, hclosing.2⟩
    next tag hopened =>
      split at hobserve
      next heq =>
        have hall : ∀ other ∈ group, other.tag? = some kind.tag := by
          intro other hother
          rw [h.tag other hother, hopened, heq]
        have hclosing := closing_remembers hkind hall h.armed hobserve
        exact ⟨by simp [hstarts, hopened, h.ne_nil hopened], hclosing.1, ⟨_, htag, hall⟩,
          hclosing.2⟩
      next => cases hobserve

end Remembers

/-! ## A whole stream -/

/-- What the tracker says of some replies, one after the other, and the tracker after them. -/
def observeAll (tracker : Tracker) : List WorkerReply → Except Violation (List Boundary × Tracker)
  | [] => .ok ([], tracker)
  | reply :: rest =>
    match tracker.observe reply with
    | .error violation => .error violation
    | .ok (boundary, tracker) =>
      (observeAll tracker rest).map fun all => (boundary :: all.1, all.2)

variable {tracker tracker' : Tracker} {replies : List WorkerReply} {boundaries : List Boundary}

/-- The tracker goes on from where it is. -/
theorem observeAll_append (h : tracker.observeAll replies = .ok (boundaries, tracker'))
    (more : List WorkerReply) :
    tracker.observeAll (replies ++ more) =
      (tracker'.observeAll more).map fun all => (boundaries ++ all.1, all.2) := by
  induction replies generalizing tracker boundaries with
  | nil =>
    cases h
    rw [List.nil_append]
    cases observeAll _ more <;> rfl
  | cons reply rest ih =>
    simp only [observeAll, List.cons_append] at h ⊢
    split at h
    next => cases h
    next boundary next hobserve =>
      cases hrest : next.observeAll rest with
      | error violation =>
        rw [hrest] at h
        cases h
      | ok all =>
        rw [hrest] at h
        cases h
        simp only [ih hrest]
        cases observeAll _ more <;> rfl

/-- What is accepted up to its last reply is accepted before it. -/
theorem observeAll_concat {reply : WorkerReply}
    (h : tracker.observeAll (replies ++ [reply]) = .ok (boundaries, tracker')) :
    ∃ before next boundary, tracker.observeAll replies = .ok (before, next) ∧
      next.observe reply = .ok (boundary, tracker') ∧ boundaries = before ++ [boundary] := by
  induction replies generalizing tracker boundaries with
  | nil =>
    simp only [List.nil_append, observeAll] at h
    split at h
    next => cases h
    next boundary next hobserve =>
      cases h
      exact ⟨[], tracker, boundary, rfl, hobserve, rfl⟩
  | cons first rest ih =>
    simp only [observeAll, List.cons_append] at h ⊢
    split at h
    next => cases h
    next boundary next hobserve =>
      cases hrest : next.observeAll (rest ++ [reply]) with
      | error violation =>
        rw [hrest] at h
        cases h
      | ok all =>
        rw [hrest] at h
        cases h
        obtain ⟨before, last, boundary', hbefore, hlast, heq⟩ := ih hrest
        exact ⟨boundary :: before, last, boundary', by rw [hbefore]; rfl, hlast, by rw [heq]; rfl⟩

end Tracker

/-! ## Boundaries and their history -/

/-- The `j`-th boundary is the start of the group that the `i`-th reply belongs to: a group starts
there, and none does after it up to `i`. -/
structure StartsGroupOf (boundaries : List Boundary) (j i : Nat) : Prop where
  le : j ≤ i
  starts : ∃ boundary, boundaries[j]? = some boundary ∧ boundary.starts = true
  inside : ∀ k boundary, j < k → k ≤ i → boundaries[k]? = some boundary → boundary.starts = false

/-- The boundaries of some replies are the ones their history calls for. A group starts at the
first reply and after every reply that completes one. A reply completes its group if the earlier
replies of the group and the reply itself say so. All of them have one tag. -/
structure Grouped (replies : List WorkerReply) (boundaries : List Boundary) : Prop where
  length : boundaries.length = replies.length
  starts : ∀ i boundary, boundaries[i]? = some boundary →
    (boundary.starts = true ↔
      i = 0 ∨ ∃ previous, boundaries[i - 1]? = some previous ∧ previous.completes = true)
  completes : ∀ i reply boundary, replies[i]? = some reply → boundaries[i]? = some boundary →
    ∃ j, StartsGroupOf boundaries j i ∧
      (boundary.completes = true ↔ CompletesGroup ((replies.take i).drop j) reply) ∧
      ∃ tag, reply.tag? = some tag ∧ ∀ other ∈ (replies.take i).drop j, other.tag? = some tag

/-- The group that is open after some boundaries begins at `j`, which lies behind all of them where
the last reply completes its group. -/
structure OpenFrom (boundaries : List Boundary) (j : Nat) : Prop where
  le : j ≤ boundaries.length
  starts : ∀ boundary, boundaries[j]? = some boundary → boundary.starts = true
  inside : ∀ k boundary, j < k → boundaries[k]? = some boundary → boundary.starts = false
  closed : j = boundaries.length ↔ boundaries.length = 0 ∨
    ∃ previous, boundaries[boundaries.length - 1]? = some previous ∧ previous.completes = true

namespace OpenFrom

variable {boundaries : List Boundary} {boundary : Boundary} {j : Nat}

theorem nil : OpenFrom [] 0 := ⟨Nat.le_refl 0, by simp, by simp, by simp⟩

/-- One more boundary belongs to the open group, whose start it is where no other is. -/
theorem startsGroupOf (h : OpenFrom boundaries j)
    (hstarts : boundary.starts = true ↔ j = boundaries.length) :
    StartsGroupOf (boundaries ++ [boundary]) j boundaries.length := by
  refine ⟨h.le, ?_, ?_⟩
  · rcases Nat.lt_or_eq_of_le h.le with hlt | heq
    · refine ⟨boundaries[j], ?_, h.starts _ (List.getElem?_eq_getElem hlt)⟩
      rw [List.getElem?_append_left hlt, List.getElem?_eq_getElem hlt]
    · exact ⟨boundary, by simp [heq], hstarts.2 heq⟩
  · intro k other hjk hk hother
    rcases Nat.lt_or_eq_of_le hk with hlt | heq
    · rw [List.getElem?_append_left hlt] at hother
      exact h.inside k other hjk hother
    · obtain rfl : boundary = other := by simpa [heq] using hother
      rw [← Bool.not_eq_true, hstarts]
      omega

/-- One more boundary leaves the group open, or it closes the group. -/
theorem concat (h : OpenFrom boundaries j)
    (hstarts : boundary.starts = true ↔ j = boundaries.length) :
    OpenFrom (boundaries ++ [boundary])
      (if boundary.completes then boundaries.length + 1 else j) := by
  have hgroup := h.startsGroupOf hstarts
  cases hcompletes : boundary.completes with
  | true =>
    refine ⟨by simp, by simp, ?_, by simp [hcompletes]⟩
    intro k other hk hother
    have hlt := (List.getElem?_eq_some_iff.1 hother).1
    rw [List.length_append, List.length_singleton] at hlt
    exact absurd hk (by simp; omega)
  | false =>
    have hle := h.le
    refine ⟨by simp; omega, ?_, ?_, by simp [hcompletes]; omega⟩
    · intro other hother
      obtain ⟨first, hfirst, hyes⟩ := hgroup.starts
      obtain rfl := Option.some.inj (hfirst.symm.trans hother)
      exact hyes
    · intro k other hjk hother
      have hlt := (List.getElem?_eq_some_iff.1 hother).1
      rw [List.length_append, List.length_singleton] at hlt
      exact hgroup.inside k other hjk (Nat.le_of_lt_succ hlt) hother

end OpenFrom

/-- The start of a group stays it when boundaries follow. -/
theorem StartsGroupOf.append {boundaries : List Boundary} {j i : Nat}
    (h : StartsGroupOf boundaries j i) (hi : i < boundaries.length) (more : List Boundary) :
    StartsGroupOf (boundaries ++ more) j i := by
  have hj : j < boundaries.length := Nat.lt_of_le_of_lt h.le hi
  refine ⟨h.le, by rw [List.getElem?_append_left hj]; exact h.starts, ?_⟩
  intro k other hjk hk hother
  rw [List.getElem?_append_left (Nat.lt_of_le_of_lt hk hi)] at hother
  exact h.inside k other hjk hk hother

namespace Grouped

/-- No reply, no boundary. -/
theorem nil : Grouped [] [] := ⟨rfl, by simp, by simp⟩

/-- One more reply that starts its group where none is open, and completes it as its history calls
for. -/
theorem concat {replies : List WorkerReply} {boundaries : List Boundary} {reply : WorkerReply}
    {boundary : Boundary} {j : Nat} (h : Grouped replies boundaries) (hopen : OpenFrom boundaries j)
    (hstarts : boundary.starts = true ↔ j = boundaries.length)
    (hcompletes : boundary.completes = true ↔ CompletesGroup (replies.drop j) reply)
    (htag : ∃ tag, reply.tag? = some tag ∧ ∀ other ∈ replies.drop j, other.tag? = some tag) :
    Grouped (replies ++ [reply]) (boundaries ++ [boundary]) := by
  have hlength := h.length
  refine ⟨by simp [hlength], ?_, ?_⟩
  · intro i other hother
    rcases Nat.lt_trichotomy i boundaries.length with hlt | rfl | hgt
    · rw [List.getElem?_append_left hlt] at hother
      rw [List.getElem?_append_left (by omega)]
      exact h.starts i other hother
    · obtain rfl : boundary = other := by simpa using hother
      rw [hstarts, hopen.closed]
      rcases Nat.eq_zero_or_pos boundaries.length with hzero | hpos
      · simp [hzero]
      · rw [List.getElem?_append_left (by omega)]
    · have hnone : (boundaries ++ [boundary])[i]? = none := by simp; omega
      rw [hnone] at hother
      cases hother
  · intro i other after hother hafter
    rcases Nat.lt_trichotomy i boundaries.length with hlt | rfl | hgt
    · rw [List.getElem?_append_left hlt] at hafter
      rw [List.getElem?_append_left (hlength ▸ hlt)] at hother
      obtain ⟨k, hk, hrest⟩ := h.completes i other after hother hafter
      rw [List.take_append_of_le_length (by omega)]
      exact ⟨k, hk.append hlt _, hrest⟩
    · obtain rfl : boundary = after := by simpa using hafter
      obtain rfl : reply = other := by simpa [hlength] using hother
      refine ⟨j, hopen.startsGroupOf hstarts, ?_⟩
      rw [hlength, List.take_left]
      exact ⟨hcompletes, htag⟩
    · have hnone : (boundaries ++ [boundary])[i]? = none := by simp; omega
      rw [hnone] at hafter
      cases hafter

end Grouped

namespace Tracker

variable {replies : List WorkerReply} {boundaries : List Boundary} {tracker : Tracker}

/-- As far as the tracker has come, its boundaries are the ones their history calls for, and it
remembers the group that is open. -/
theorem grouped_observeAll (h : Tracker.start.observeAll replies = .ok (boundaries, tracker)) :
    Grouped replies boundaries ∧
      ∃ j, OpenFrom boundaries j ∧ tracker.Remembers (replies.drop j) := by
  induction replies using List.reverseRecOn generalizing boundaries tracker with
  | nil =>
    cases h
    exact ⟨.nil, 0, .nil, .start⟩
  | append_singleton replies reply ih =>
    obtain ⟨before, next, boundary, hbefore, hobserve, rfl⟩ := observeAll_concat h
    obtain ⟨hgrouped, j, hopen, hremembers⟩ := ih hbefore
    have hlength := hgrouped.length
    have hle := hopen.le
    obtain ⟨hstarts, hcompletes, htag, hnext⟩ := hremembers.observe hobserve
    have hstarts' : boundary.starts = true ↔ j = before.length := by
      rw [hstarts, List.drop_eq_nil_iff]
      omega
    refine ⟨hgrouped.concat hopen hstarts' hcompletes htag, _, hopen.concat hstarts', ?_⟩
    cases hdone : boundary.completes with
    | true => simpa [hdone, hlength] using hnext
    | false => simpa [hdone, List.drop_append_of_le_length (hlength ▸ hle)] using hnext

/-- **The boundaries of a stream are the ones its history calls for.** Of any list of replies that
is accepted from the beginning, a reply starts a group exactly if it is the first one or the one
before completes its group, and it completes its group exactly if the replies since the group
started say so, all of which have one tag. After a reply that completes its group the boundaries
of what follows are those of a stream of its own, and so is what refuses it. -/
theorem boundaries_observeAll
    (h : Tracker.start.observeAll replies = .ok (boundaries, tracker)) :
    Grouped replies boundaries ∧
      ∀ last, boundaries.getLast? = some last → last.completes = true →
        ∀ more, Tracker.start.observeAll (replies ++ more) =
          (Tracker.start.observeAll more).map fun all => (boundaries ++ all.1, all.2) := by
  obtain ⟨hgrouped, j, hopen, hremembers⟩ := grouped_observeAll h
  refine ⟨hgrouped, ?_⟩
  intro last hlast hcompletes more
  rw [List.getLast?_eq_getElem?] at hlast
  have hj : j = boundaries.length := hopen.closed.2 (.inr ⟨last, hlast, hcompletes⟩)
  rw [hj, hgrouped.length, List.drop_length] at hremembers
  rw [observeAll_append h, hremembers.eq_start]

/-- An output in two pieces, then two large tasks: the last one is announced while its payload is
still to come. -/
theorem boundaries_observeAll_of_output_and_tasks :
    let task (id : String) (complete last : Bool) :=
      WorkerReply.ofKind "r" (.createLargeTask
        (some (.initTask ⟨⟨id, [], []⟩, [], complete, last⟩)))
    let piece (complete : Bool) :=
      WorkerReply.ofKind "r" (.createLargeTask (some (.taskPayload ⟨[1], complete⟩)))
    let output (last : Bool) := WorkerReply.ofKind "o" (.output (some (.data ⟨[2], last⟩)))
    let replies := [output false, output true, task "a" true false, task "b" false true,
      piece false, piece true]
    let boundaries : List Boundary := [⟨true, false⟩, ⟨false, true⟩, ⟨true, false⟩, ⟨false, false⟩,
      ⟨false, false⟩, ⟨false, true⟩]
    Tracker.start.observeAll replies = .ok (boundaries, .start) ∧
      Grouped replies boundaries ∧
        Tracker.start.observeAll (replies ++ replies) =
          .ok (boundaries ++ boundaries, .start) := by
  intro task piece output replies boundaries
  have hobserve : Tracker.start.observeAll replies = .ok (boundaries, .start) := rfl
  obtain ⟨hgrouped, hmore⟩ := boundaries_observeAll hobserve
  refine ⟨hobserve, hgrouped, ?_⟩
  rw [hmore ⟨false, true⟩ rfl rfl replies, hobserve]
  rfl

end Tracker

end Sidecar
