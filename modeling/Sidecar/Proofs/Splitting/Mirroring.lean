import Sidecar.Proofs.Splitting.Keeping

/-!
# Dropped groups do not disturb a split

The producer never looks into the queues it writes to, so a split whose caller has dropped some
groups goes on like one whose caller has not: the two are the same but for the queues of the dropped
groups (`Splitter.Mirrors`), and every step keeps it that way (`Splitter.Mirrors.step`).
-/

namespace Sidecar

/-! ## Queues whose reader is gone -/

/-- The queues are the same, but for those whose reader is gone in the first list. -/
structure Hides (groups groups' : List (Queue WorkerReply)) : Prop where
  length : groups'.length = groups.length
  queue : ∀ (k : Nat) (q : Queue WorkerReply), groups[k]? = some q → q.readerGone = false →
    groups'[k]? = some q

namespace Hides

variable {groups groups' : List (Queue WorkerReply)}

theorem refl (groups : List (Queue WorkerReply)) : Hides groups groups := ⟨rfl, fun _ _ h _ => h⟩

/-- What keeps the reader is done to the same queue on both sides. -/
theorem modify (h : Hides groups groups') (group : Nat) {f : Queue WorkerReply → Queue WorkerReply}
    (hf : ∀ q, (f q).readerGone = q.readerGone) :
    Hides (groups.modify group f) (groups'.modify group f) := by
  refine ⟨by simp [h.length], ?_⟩
  intro k q hq hreader
  rw [List.getElem?_modify] at hq ⊢
  obtain ⟨q', hq', rfl⟩ := Option.map_eq_some_iff.1 hq
  have hreader' : q'.readerGone = false := by
    split at hreader
    · rwa [hf] at hreader
    · exact hreader
  rw [h.queue k q' hq' hreader']
  rfl

/-- What keeps the readers is done to all queues. -/
theorem map (h : Hides groups groups') {f : Queue WorkerReply → Queue WorkerReply}
    (hf : ∀ q, (f q).readerGone = q.readerGone) : Hides (groups.map f) (groups'.map f) := by
  refine ⟨by simp [h.length], ?_⟩
  intro k q hq hreader
  rw [List.getElem?_map] at hq ⊢
  obtain ⟨q', hq', rfl⟩ := Option.map_eq_some_iff.1 hq
  rw [h.queue k q' hq' ((hf q').symm.trans hreader)]
  rfl

/-- A queue is added. -/
theorem append (h : Hides groups groups') (q : Queue WorkerReply) :
    Hides (groups ++ [q]) (groups' ++ [q]) := by
  refine ⟨by simp [h.length], ?_⟩
  intro k q' hq' hreader
  rcases Nat.lt_or_ge k groups.length with hk | hk
  · rw [List.getElem?_append_left hk] at hq'
    rw [List.getElem?_append_left (h.length.symm ▸ hk)]
    exact h.queue k q' hq' hreader
  · rw [List.getElem?_append_right hk] at hq'
    rw [List.getElem?_append_right (h.length.symm ▸ hk), h.length]
    exact hq'

/-- A queue is replaced. -/
theorem set (h : Hides groups groups') (group : Nat) (q : Queue WorkerReply) :
    Hides (groups.set group q) (groups'.set group q) := by
  refine ⟨by simp [h.length], ?_⟩
  intro k q' hq' hreader
  rw [List.getElem?_set] at hq' ⊢
  rw [h.length]
  split at hq'
  next heq =>
    rw [if_pos heq]
    exact hq'
  next hne =>
    rw [if_neg hne]
    exact h.queue k q' hq' hreader

/-- A reader goes. -/
theorem dropReader (h : Hides groups groups') (group : Nat) :
    Hides (groups.modify group Queue.dropReader) groups' := by
  refine ⟨by simp [h.length], ?_⟩
  intro k q hq hreader
  rw [List.getElem?_modify] at hq
  obtain ⟨q', hq', rfl⟩ := Option.map_eq_some_iff.1 hq
  split at hreader
  next => cases hreader
  next hne =>
    simp only [hne, if_false]
    exact h.queue k q' hq' hreader

end Hides

/-- Putting an entry in keeps the reader. -/
theorem Queue.readerGone_send {α : Type} (q : Queue α) (stopped : Bool) (entry : Entry α) :
    (q.send stopped entry).2.readerGone = q.readerGone := by
  unfold send
  split
  · rfl
  · split
    · rfl
    · split <;> rfl

/-! ## The producer -/

namespace Splitter

/-- The second split is like the first, but for the queues of groups whose reader is gone in the
first. -/
def Mirrors (s s' : Splitter) : Prop :=
  ∃ groups, s' = { s with groups } ∧ Hides s.groups groups

namespace Mirrors

variable {s s' : Splitter}

theorem halt (h : s.Mirrors s') : s.halt.Mirrors s'.halt := by
  obtain ⟨groups, rfl, hgroups⟩ := h
  exact ⟨_, rfl, hgroups.map fun _ => rfl⟩

theorem put (h : s.Mirrors s') (group : Nat) (entry : Entry WorkerReply) :
    (s.put group entry).Mirrors (s'.put group entry) := by
  obtain ⟨groups, rfl, hgroups⟩ := h
  exact ⟨_, rfl, hgroups.modify group fun q => q.readerGone_send _ _⟩

theorem release (h : s.Mirrors s') (group : Nat) :
    (s.release group).Mirrors (s'.release group) := by
  obtain ⟨groups, rfl, hgroups⟩ := h
  exact ⟨_, rfl, hgroups.modify group fun _ => rfl⟩

theorem deliver (h : s.Mirrors s') (group : Nat) (reply : WorkerReply) (completes : Bool) :
    (s.deliver group reply completes).Mirrors (s'.deliver group reply completes) := by
  have hput := h.put group (.item reply)
  cases completes with
  | true => exact (hput.put group .close).release group
  | false =>
    obtain ⟨groups, heq, hgroups⟩ := hput
    refine ⟨groups, ?_, hgroups⟩
    simp only [Splitter.deliver, Bool.false_eq_true, if_false, heq]

theorem conclude (h : s.Mirrors s') (entry : Entry (Nat × WorkerReply)) :
    (s.conclude entry).Mirrors (s'.conclude entry) := by
  obtain ⟨groups, rfl, hgroups⟩ := h
  unfold Splitter.conclude
  simp only
  split
  next => exact ⟨groups, rfl, hgroups⟩
  next => exact ⟨_, rfl, hgroups.map fun _ => rfl⟩

theorem failBoth (h : s.Mirrors s') (error : QueueError) :
    (s.failBoth error).Mirrors (s'.failBoth error) := by
  have hcurrent : s'.current = s.current := by
    obtain ⟨groups, rfl, -⟩ := h
    rfl
  unfold Splitter.failBoth
  rw [hcurrent]
  cases s.current with
  | none => exact h.conclude _
  | some group => exact ((h.put group _).release group).conclude _

theorem handOut (h : s.Mirrors s') (group : Nat) (first : WorkerReply) (completes : Bool)
    (outcome : Sent × Queue (Nat × WorkerReply)) :
    (s.handOut group first completes outcome).Mirrors
      (s'.handOut group first completes outcome) := by
  obtain ⟨groups, rfl, hgroups⟩ := h
  obtain ⟨sent, outer⟩ := outcome
  cases sent with
  | landed =>
    exact Mirrors.deliver (s := { s with outer, phase := .reading }) ⟨groups, rfl, hgroups⟩ _ _ _
  | suspended => exact ⟨groups, rfl, hgroups⟩
  | refused error => exact ⟨_, rfl, hgroups.map fun _ => rfl⟩

theorem takeIn (h : s.Mirrors s') (reply : WorkerReply) :
    (s.takeIn reply).Mirrors (s'.takeIn reply) := by
  obtain ⟨groups, rfl, hgroups⟩ := h
  unfold Splitter.takeIn
  simp only
  cases s.tracker.observe reply with
  | error violation => exact Mirrors.failBoth ⟨groups, rfl, hgroups⟩ _
  | ok result =>
    obtain ⟨boundary, tracker⟩ := result
    simp only
    split
    next =>
      rw [hgroups.length]
      exact Mirrors.handOut
        (s := { s with tracker := tracker, groups := s.groups ++ [Queue.unbounded] })
        ⟨_, rfl, hgroups.append _⟩ _ _ _ _
    next =>
      cases s.current with
      | none => exact ⟨groups, rfl, hgroups⟩
      | some group =>
        exact Mirrors.deliver (s := { s with tracker := tracker }) ⟨groups, rfl, hgroups⟩ _ _ _

theorem takeEnd (h : s.Mirrors s') : s.takeEnd.Mirrors s'.takeEnd := by
  have htracker : s'.tracker = s.tracker := by
    obtain ⟨groups, rfl, -⟩ := h
    rfl
  unfold Splitter.takeEnd
  rw [htracker]
  cases s.tracker.opened with
  | some tag => exact h.failBoth _
  | none => exact h.conclude _

/-- The producers take the same steps. -/
theorem step (h : s.Mirrors s') :
    (s.step = none ∧ s'.step = none) ∨
      ∃ t t', s.step = some t ∧ s'.step = some t' ∧ t.Mirrors t' := by
  have hhalt := h.halt
  have htakeEnd := h.takeEnd
  obtain ⟨groups, rfl, hgroups⟩ := h
  unfold Splitter.step
  simp only
  split
  next => exact .inl ⟨rfl, rfl⟩
  next =>
    split
    next => exact .inr ⟨_, _, rfl, rfl, hhalt⟩
    next =>
      split
      next reply rest _ =>
        exact .inr ⟨_, _, rfl, rfl,
          Mirrors.takeIn (s := { s with arrived := rest }) ⟨groups, rfl, hgroups⟩ reply⟩
      next cause rest _ =>
        exact .inr ⟨_, _, rfl, rfl,
          Mirrors.failBoth (s := { s with arrived := rest }) ⟨groups, rfl, hgroups⟩ _⟩
      next =>
        split
        next => exact .inr ⟨_, _, rfl, rfl, htakeEnd⟩
        next => exact .inl ⟨rfl, rfl⟩
  next group first completes _ =>
    split
    next => exact .inr ⟨_, _, rfl, rfl, hhalt⟩
    next =>
      split
      next =>
        exact .inr ⟨_, _, rfl, rfl, Mirrors.handOut (s := s) ⟨groups, rfl, hgroups⟩ _ _ _ _⟩
      next => exact .inl ⟨rfl, rfl⟩
  next =>
    split
    next => exact .inr ⟨_, _, rfl, rfl, hhalt⟩
    next =>
      split
      next entry _ =>
        split
        next =>
          exact .inr ⟨_, _, rfl, rfl, Mirrors.halt
            (s := { s with outer := (s.outer.resume s.cancelled entry).2 })
            ⟨groups, rfl, hgroups⟩⟩
        next => exact .inl ⟨rfl, rfl⟩
      next => exact .inr ⟨_, _, rfl, rfl, hhalt⟩

end Mirrors

end Splitter

end Sidecar
