import Sidecar.Proofs.Creation.Intake

/-!
# Filling the queues of a submission

What a creation call puts into its queues keeps the submission following the batch
(`Intake.Follows`), one lemma for each thing a request may ask for. None of the entries is refused
and none is lost: the readers are there as long as the submission runs, and a payload's queue
always has room.
-/

namespace Sidecar

namespace Intake.Follows

variable {i : Intake} {identity : Identity} {b : Batch} {ended : Bool} {qs : TaskQueues}

/-- A submission that begins follows an empty batch. -/
theorem start {b : Batch} (identity : Identity) (capacity : Nat) (hc : b.complete = [])
    (hn : b.current = none) :
    (Intake.start identity b.options).Follows identity b false ⟨.bounded capacity, []⟩ := by
  have htasks : b.tasks = [] := by simp [Batch.tasks, hc, hn]
  refine ⟨rfl, rfl, rfl, (fun u hu => by cases hu), rfl, rfl, ?_, by simp [htasks], ?_⟩
  · rw [Batch.entriesFrom_of_le (by simp [htasks])]
    rfl
  · intro n t ht
    simp [htasks] at ht

/-- A task is announced: its header goes into the queue or is outstanding, and its payload gets a
queue of its own. -/
theorem announce (h : i.Follows identity b false qs) (hcur : b.current = none)
    (header : TaskHeader) {headers : Queue (TaskHeader × Nat)}
    (hreader : headers.readerGone = false) (hfinished : headers.finished = false)
    (hqueue : headers.buffer ++ headers.waiting.toList =
      qs.headers.buffer ++ qs.headers.waiting.toList ++ [.item (header, qs.payloads.length)]) :
    i.Follows identity (b.add (.header header)) false ⟨headers, qs.payloads ++ [.unbounded]⟩ := by
  have hcomplete : (b.add (.header header)).complete = b.complete := by simp [Batch.add, hcur]
  have hheaders : (b.add (.header header)).headers = b.headers ++ [header] := by
    simp [Batch.headers]
  have htasks : b.tasks = b.complete := Batch.tasks_of_current_none hcur
  refine ⟨h.owner, h.options, ?_, ?_, hreader, hfinished, ?_, by simp [h.count], ?_⟩
  · rw [hcomplete]
    exact h.staged
  · intro u hu
    obtain ⟨hpay, hget⟩ := h.current u hu
    refine ⟨hpay, ?_⟩
    rw [hheaders, List.getElem?_append_left (List.getElem?_eq_some_iff.1 hget).1, hget]
  · rw [hqueue, h.headers, Batch.entriesFrom_append hheaders h.headersRead_le, h.count]
    simp
  · intro n t ht hle
    rw [Batch.tasks_add_header] at ht
    rw [hcomplete]
    rcases Nat.lt_or_ge n b.tasks.length with hlt | hge
    · rw [List.getElem?_append_left hlt] at ht
      obtain ⟨q, rest, hq, hcarries, hpay⟩ := h.payloads n t ht hle
      refine ⟨q, rest, ?_, hcarries, hpay⟩
      rw [List.getElem?_append_left (by rw [h.count]; exact hlt), hq]
    · rw [List.getElem?_append_right hge] at ht
      obtain ⟨hn, rfl⟩ : n = b.tasks.length ∧ ⟨header, []⟩ = t := by
        rw [List.getElem?_singleton] at ht
        split at ht
        · exact ⟨by omega, by simpa using ht⟩
        · cases ht
      have hrec : i.receivedOf n = [] := by
        unfold receivedOf
        split
        next u hu =>
          obtain ⟨hpay, hget⟩ := h.current u hu
          have := (List.getElem?_eq_some_iff.1 hget).1
          rw [Batch.length_headers] at this
          rw [if_neg (by omega)]
        next => rfl
      refine ⟨.unbounded, [], ?_, ?_, by simp [hrec]⟩
      · simp [h.count, hn]
      · have : decide (n < b.complete.length) = false := by simp [hn, htasks]
        rw [this]
        exact Queue.Carries.unbounded

/-- Data goes into the queue of the payload that is still coming. -/
theorem push (h : i.Follows identity b ended qs) {t : Announced} (hcur : b.current = some t)
    {q : Queue Bytes} (hq : qs.payloads[b.complete.length]? = some q) (data : Bytes) :
    q.send false (.item data) = (.landed, { q with buffer := q.buffer ++ [.item data] }) ∧
      i.Follows identity (b.add (.data data)) ended ⟨qs.headers, qs.payloads.set
        b.complete.length { q with buffer := q.buffer ++ [.item data] }⟩ := by
  have htasks := Batch.tasks_of_current hcur
  have hlen : b.complete.length < qs.payloads.length := (List.getElem?_eq_some_iff.1 hq).1
  obtain ⟨q', rest, hq', hcarries, hpay⟩ := h.payloads b.complete.length t
    (by simp [htasks]) h.length_staged_le
  cases hq.symm.trans hq'
  have hopen : decide (b.complete.length < b.complete.length) = false := by simp
  rw [hopen] at hcarries
  refine ⟨(hcarries.push data).1, h.owner, h.options, h.staged, ?_, h.reader,
    h.finished, ?_, ?_, ?_⟩
  · intro u hu
    have hheaders : (b.add (.data data)).headers = b.headers := by
      simp [Batch.headers, Batch.tasks_add_data hcur, htasks]
    rw [hheaders]
    exact h.current u hu
  · have hentries : (b.add (.data data)).entriesFrom = b.entriesFrom := by
      funext k
      simp [Batch.entriesFrom, Batch.headers, Batch.tasks_add_data hcur, htasks]
    rw [hentries]
    exact h.headers
  · simpa [Batch.tasks_add_data hcur, htasks] using h.count
  · intro n s hs hle
    rw [Batch.tasks_add_data hcur] at hs
    show ∃ q' rest, (qs.payloads.set _ _)[n]? = some q' ∧
      q'.Carries rest (decide (n < b.complete.length)) ∧ s.payload = i.receivedOf n ++ rest
    rcases Nat.lt_trichotomy n b.complete.length with hlt | rfl | hgt
    · rw [List.getElem?_append_left hlt, ← Batch.getElem?_tasks_of_lt hlt] at hs
      obtain ⟨r, rest, hr, hrc, hrp⟩ := h.payloads n s hs hle
      exact ⟨r, rest, by simp [Nat.ne_of_gt hlt, hr], hrc, hrp⟩
    · simp only [List.getElem?_concat_length, Option.some.injEq] at hs
      subst hs
      refine ⟨_, rest ++ data, by simp [hlen]; rfl, ?_, ?_⟩
      · rw [hopen]
        exact (hcarries.push data).2
      · simp [hpay, List.append_assoc]
    · rw [List.getElem?_eq_none (by simp; omega)] at hs
      cases hs

/-- The end of the payload goes into its queue, and the queue loses its writer. -/
theorem close (h : i.Follows identity b ended qs) {t : Announced} (hcur : b.current = some t)
    {q : Queue Bytes} (hq : qs.payloads[b.complete.length]? = some q) :
    q.send false .close = (.landed, { q with buffer := q.buffer ++ [.close] }) ∧
      i.Follows identity (b.add .dataComplete) ended ⟨qs.headers, qs.payloads.set
        b.complete.length
          ({ q with buffer := q.buffer ++ [.close] } : Queue Bytes).dropWriter⟩ := by
  have htasks := Batch.tasks_of_current hcur
  have hlen : b.complete.length < qs.payloads.length := (List.getElem?_eq_some_iff.1 hq).1
  have hcomplete : (b.add .dataComplete).complete = b.complete ++ [t] := by simp [Batch.add, hcur]
  obtain ⟨q', rest, hq', hcarries, hpay⟩ := h.payloads b.complete.length t
    (by simp [htasks]) h.length_staged_le
  cases hq.symm.trans hq'
  rw [show decide (b.complete.length < b.complete.length) = false by simp] at hcarries
  refine ⟨hcarries.close.1, h.owner, h.options, ?_, ?_, h.reader,
    h.finished, ?_, ?_, ?_⟩
  · rw [hcomplete, List.take_append_of_le_length h.length_staged_le]
    exact h.staged
  · intro u hu
    simpa [Batch.headers] using h.current u hu
  · simpa [Batch.entriesFrom, Batch.headers] using h.headers
  · simpa using h.count
  · intro n s hs hle
    rw [Batch.tasks_add_dataComplete] at hs
    obtain ⟨r, rest', hr, hrc, hrp⟩ := h.payloads n s hs hle
    rw [hcomplete]
    have hn : n < b.tasks.length := (List.getElem?_eq_some_iff.1 hs).1
    rw [htasks, List.length_append, List.length_singleton] at hn
    rcases Nat.lt_or_ge n b.complete.length with hlt | hge
    · refine ⟨r, rest', by simp [Nat.ne_of_gt hlt, hr], ?_, hrp⟩
      simpa [hlt, Nat.lt_succ_of_lt hlt] using hrc
    · obtain rfl : n = b.complete.length := by omega
      cases hq.symm.trans hr
      have hrest : rest' = rest := List.append_cancel_left (hrp.symm.trans (by
        rw [← hpay]
        rw [htasks, List.getElem?_concat_length] at hs
        cases hs
        rfl))
      subst hrest
      refine ⟨_, rest', by simp [hlen]; rfl, ?_, hrp⟩
      simpa using hcarries.close.2

/-- The end of the headers goes into their queue or is outstanding. -/
theorem endHeaders (h : i.Follows identity b false qs) {headers : Queue (TaskHeader × Nat)}
    (hreader : headers.readerGone = false) (hfinished : headers.finished = false)
    (hqueue : headers.buffer ++ headers.waiting.toList =
      qs.headers.buffer ++ qs.headers.waiting.toList ++ [.close]) :
    i.Follows identity b true { qs with headers } := by
  refine ⟨h.owner, h.options, h.staged, h.current, hreader, hfinished, ?_, h.count, h.payloads⟩
  rw [hqueue, h.headers]
  simp

/-- What is outstanding may land without anything else changing. -/
theorem settle (h : i.Follows identity b ended qs) {headers : Queue (TaskHeader × Nat)}
    (hreader : headers.readerGone = false) (hfinished : headers.finished = false)
    (hqueue : headers.buffer ++ headers.waiting.toList =
      qs.headers.buffer ++ qs.headers.waiting.toList) :
    i.Follows identity b ended { qs with headers } :=
  ⟨h.owner, h.options, h.staged, h.current, hreader, hfinished, hqueue.trans h.headers, h.count,
    h.payloads⟩

end Intake.Follows

end Sidecar
