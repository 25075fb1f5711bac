import Sidecar.Proofs.Queue.Delivery

/-!
# The slots of a queue

What an attempt to put in an entry comes to depends on three things alone: whether the queue was
cancelled, whether its reader has gone, and whether there is a free slot (`Channel.verdict`). So the
buffer never outgrows its slots (`Channel.Slotted`), and an entry is suspended exactly where all of
them are taken.

A slot that a read frees belongs to the entry that is outstanding, because nobody else can put one
in. Whatever was done before, `Channel.slots_bound_the_buffer` tells when an entry lands, waits or
is refused.
-/

namespace Sidecar

variable {α : Type}

namespace Channel

/-! ## Putting in an entry -/

/-- The entry that an operation puts in, if it is one of those that do. -/
def Operation.enters? : Operation α → Option (Entry α)
  | push a => some (.item a)
  | close => some .close
  | fail e => some (.fail e)
  | _ => none

/-- What an attempt to put in an entry comes to. -/
def verdict (c : Channel α) : Sent :=
  if c.cancelled then .refused .cancelled
  else if c.queue.readerGone then .refused .readerGone
  else if c.queue.hasRoom then .landed
  else .suspended

/-- The queue after an attempt to put in an entry. -/
def attempted (c : Channel α) (entry : Entry α) : Sent → Channel α
  | .landed => { c with queue := { c.queue with
      buffer := c.queue.buffer ++ [entry], waiting := none
      writerGone := c.queue.writerGone || endsQueue entry } }
  | .refused _ => { c with queue := { c.queue with
      waiting := none, writerGone := c.queue.writerGone || endsQueue entry } }
  | .suspended => { c with queue := { c.queue with waiting := some entry } }

theorem settle_resume (c : Channel α) (entry : Entry α) :
    c.settle entry (c.queue.resume c.cancelled entry) =
      (.sent c.verdict, c.attempted entry c.verdict) := by
  have hretire : ∀ (sent : Sent) (q : Queue α), sent ≠ .suspended → q.waiting = none →
      c.settle entry (sent, q) =
        (.sent sent, { c with queue := { q with
          waiting := none, writerGone := q.writerGone || endsQueue entry } }) := by
    intro sent q hsent hwaiting
    cases hends : endsQueue entry with
    | true => simp [settle, hends, hsent, Queue.dropWriter]
    | false =>
      have hsame : q = { q with waiting := none } := by rw [← hwaiting]
      simpa [settle, hends] using hsame
  unfold verdict
  cases hcancelled : c.cancelled with
  | true => exact hretire _ _ (by simp) rfl
  | false =>
    cases hreader : c.queue.readerGone with
    | true =>
      rw [Queue.resume_of_readerGone hreader]
      exact hretire _ _ (by simp) rfl
    | false =>
      cases hroom : c.queue.hasRoom with
      | true =>
        rw [Queue.resume_of_hasRoom hreader hroom]
        exact hretire _ _ (by simp) rfl
      | false =>
        rw [Queue.resume_of_full hreader hroom]
        simp [settle, attempted]

/-- The writer that is there and has nothing outstanding puts in an entry. -/
theorem perform_of_enters? {c : Channel α} {op : Operation α} {entry : Entry α}
    (hop : op.enters? = some entry) (hwriter : c.queue.writerGone = false)
    (hwaiting : c.queue.waiting = none) :
    c.perform op = (.sent c.verdict, c.attempted entry c.verdict) := by
  have hwrite : c.perform op = c.write entry := by
    cases op <;> cases hop <;> rfl
  have hsend : c.queue.send c.cancelled entry = c.queue.resume c.cancelled entry := by
    rw [Queue.resume, ← hwaiting]
  rw [hwrite, write, hwriter, hwaiting, hsend]
  exact c.settle_resume entry

/-- The writer that is busy puts in nothing else. -/
theorem perform_of_enters?_of_waiting {c : Channel α} {op : Operation α} {entry other : Entry α}
    (hop : op.enters? = some entry) (hwriter : c.queue.writerGone = false)
    (hwaiting : c.queue.waiting = some other) : c.perform op = (.busy, c) := by
  have hwrite : c.perform op = c.write entry := by
    cases op <;> cases hop <;> rfl
  rw [hwrite, write, hwriter, hwaiting]
  rfl

/-- The writer tries its outstanding entry again. -/
theorem perform_resume {c : Channel α} {entry : Entry α} (hwriter : c.queue.writerGone = false)
    (hwaiting : c.queue.waiting = some entry) :
    c.perform .resume = (.sent c.verdict, c.attempted entry c.verdict) := by
  rw [perform, resume, hwriter, hwaiting]
  exact c.settle_resume entry

/-! ## The slots that are taken -/

/-- What becomes of an entry that the writer puts in, where there are so many slots or no limit. -/
def fate (slots : Option Nat) (c : Channel α) : Sent :=
  if c.cancelled then .refused .cancelled
  else if c.queue.readerGone then .refused .readerGone
  else if slots = some c.queue.buffer.length then .suspended
  else .landed

theorem fate_none_ne_suspended (c : Channel α) : c.fate none ≠ .suspended := by
  unfold fate
  split
  · nofun
  · split
    · nofun
    · nofun

/-- The buffer fits into the slots; the reader has its end of the queue unless it has gone; an
outstanding entry has its writer; and while both handles are there and the queue is not cancelled,
no end has landed and none was seen. -/
structure Slotted (slots : Option Nat) (c : Channel α) : Prop where
  capacity : c.queue.capacity = slots
  reader : ReaderUse.isLive c.reader = !c.queue.readerGone
  fits : ∀ n, slots = some n → 0 < n ∧ c.queue.buffer.length ≤ n
  writer : ∀ entry, c.queue.waiting = some entry → c.queue.writerGone = false
  going : c.queue.writerGone = false → c.queue.readerGone = false → c.cancelled = false →
    c.queue.finished = false ∧ ∃ items : List α, c.queue.buffer = items.map .item

theorem slotted_start (capacity : Option Nat) :
    (start capacity : Channel α).Slotted (capacity.map (max · 1)) := by
  cases capacity with
  | none => exact ⟨rfl, rfl, nofun, nofun, fun _ _ _ => ⟨rfl, [], rfl⟩⟩
  | some slots =>
    refine ⟨rfl, rfl, fun n hn => ?_, nofun, fun _ _ _ => ⟨rfl, [], rfl⟩⟩
    obtain rfl := Option.some.inj hn
    exact ⟨Nat.lt_of_lt_of_le Nat.zero_lt_one (Nat.le_max_right _ _), Nat.zero_le _⟩

namespace Slotted

variable {slots : Option Nat} {c : Channel α}

/-- There is a free slot unless all are taken. -/
theorem hasRoom_iff (h : c.Slotted slots) :
    c.queue.hasRoom = true ↔ slots ≠ some c.queue.buffer.length := by
  unfold Queue.hasRoom
  rw [h.capacity]
  cases hslots : slots with
  | none => simp
  | some n =>
    have := (h.fits n hslots).2
    simp only [decide_eq_true_eq, ne_eq, Option.some.injEq]
    omega

/-- What becomes of an entry is told by the slots that are taken. -/
theorem verdict_eq_fate (h : c.Slotted slots) : c.verdict = c.fate slots := by
  have hroom : (if c.queue.hasRoom then Sent.landed else .suspended) =
      if slots = some c.queue.buffer.length then .suspended else .landed := by
    by_cases hfull : slots = some c.queue.buffer.length
    · rw [if_pos hfull, if_neg fun hroom => h.hasRoom_iff.1 hroom hfull]
    · rw [if_neg hfull, if_pos (h.hasRoom_iff.2 hfull)]
  rw [verdict, fate, hroom]

/-- An attempt to put in an entry keeps to the slots. -/
theorem attempted (h : c.Slotted slots) (hwriter : c.queue.writerGone = false) (entry : Entry α) :
    (c.attempted entry c.verdict).Slotted slots := by
  have hretired : (({ c with queue := { c.queue with
      waiting := none, writerGone := c.queue.writerGone || endsQueue entry } }) :
      Channel α).Slotted slots :=
    ⟨h.capacity, h.reader, h.fits, nofun, fun _ => h.going hwriter⟩
  cases hcancelled : c.cancelled with
  | true => simpa [verdict, hcancelled, Channel.attempted] using hretired
  | false =>
    cases hreader : c.queue.readerGone with
    | true => simpa [verdict, hcancelled, hreader, Channel.attempted] using hretired
    | false =>
      rw [h.verdict_eq_fate, fate, hcancelled, hreader, if_neg Bool.false_ne_true,
        if_neg Bool.false_ne_true]
      split
      next => exact ⟨h.capacity, h.reader, h.fits, fun _ _ => hwriter, h.going⟩
      next hroom =>
        refine ⟨h.capacity, h.reader, fun n hn => ⟨(h.fits n hn).1, ?_⟩, nofun, fun hends _ _ => ?_⟩
        · have hle := (h.fits n hn).2
          have hne : n ≠ c.queue.buffer.length := fun heq => hroom (heq ▸ hn)
          show (c.queue.buffer ++ [entry]).length ≤ n
          rw [List.length_append, List.length_singleton]
          omega
        · obtain ⟨hfinished, items, hitems⟩ := h.going hwriter hreader hcancelled
          -- An end takes the writer with it.
          cases entry with
          | item a =>
            refine ⟨hfinished, items ++ [a], ?_⟩
            show c.queue.buffer ++ [_] = _
            rw [hitems, List.map_append, List.map_singleton]
          | close | fail =>
            simp [endsQueue, Channel.attempted] at hends

/-- The reader goes away, or is used up. -/
theorem dropReader (h : c.Slotted slots) {q : Queue α} (hcapacity : q.capacity = c.queue.capacity)
    (hwaiting : q.waiting = c.queue.waiting) (hwriter : q.writerGone = c.queue.writerGone)
    {reader : Option (ReaderUse α)} (hgone : ReaderUse.isLive reader = false) :
    ({ c with queue := q.dropReader, reader } : Channel α).Slotted slots :=
  ⟨hcapacity.trans h.capacity, hgone, fun n hn => ⟨(h.fits n hn).1, Nat.zero_le _⟩,
    fun entry hentry => hwriter.trans (h.writer entry (hwaiting.symm.trans hentry)),
    fun _ hreader => nomatch hreader⟩

/-- Where the queue goes on, the next entry is an item or there is none. -/
theorem queue_recv (h : c.Slotted slots) (hwriter : c.queue.writerGone = false)
    (hreader : c.queue.readerGone = false) (hcancelled : c.cancelled = false) :
    ∃ r, c.queue.recv c.cancelled = (r, { c.queue with buffer := c.queue.buffer.tail }) ∧
      r.end? = none := by
  obtain ⟨hfinished, items, hitems⟩ := h.going hwriter hreader hcancelled
  rw [hcancelled]
  cases items with
  | nil =>
    have htail : c.queue.buffer.tail = c.queue.buffer := by rw [hitems]; rfl
    exact ⟨_, by rw [Queue.recv_pending hfinished hitems hwriter, htail], rfl⟩
  | cons a items => exact ⟨_, by rw [Queue.recv_item hfinished hitems, hitems]; rfl, rfl⟩

/-- What a reader is used for that has its end of the queue. -/
theorem exists_use (h : c.Slotted slots) (hreader : c.queue.readerGone = false) :
    ∃ use, c.reader = some use ∧ use ≠ .spent := by
  have hlive := h.reader
  rw [hreader] at hlive
  cases huse : c.reader with
  | none => simp [huse, ReaderUse.isLive] at hlive
  | some use => exact ⟨use, rfl, fun heq => by simp [huse, heq, ReaderUse.isLive] at hlive⟩

/-- A read takes the next item where the queue goes on, and nothing from an empty buffer. -/
theorem recv_eq (h : c.Slotted slots) (hwriter : c.queue.writerGone = false)
    (hreader : c.queue.readerGone = false) (hcancelled : c.cancelled = false) :
    ∃ reader, (c.perform .recv).2 =
      { c with queue := { c.queue with buffer := c.queue.buffer.tail }, reader } := by
  obtain ⟨use, huse, hspent⟩ := h.exists_use hreader
  obtain ⟨r, hread, hgoing⟩ := h.queue_recv hwriter hreader hcancelled
  have hrecv := recv_of_use use hspent hread
  rw [← huse] at hrecv
  have hlive : ReaderUse.isLive (use.take r).2 = true := by
    cases r with
    | ended | error e => cases hgoing
    | item a | pending => cases use <;> first | rfl | exact absurd rfl hspent
  rw [hlive] at hrecv
  exact ⟨_, congrArg Prod.snd hrecv⟩

/-- The reader takes the next entry. -/
theorem recv (h : c.Slotted slots) : (c.perform .recv).2.Slotted slots := by
  cases hreader : c.queue.readerGone with
  | true =>
    have hlive := h.reader
    rw [hreader] at hlive
    have hsame : (c.perform .recv).2 = c := by
      unfold Channel.perform Channel.recv
      cases huse : c.reader with
      | none => rfl
      | some use =>
        cases use with
        | spent => rfl
        | entries | collecting | streaming => simp [huse, ReaderUse.isLive] at hlive
    rwa [hsame]
  | false =>
    obtain ⟨use, huse, hspent⟩ := h.exists_use hreader
    obtain ⟨hcapacity, hwaiting, hwriter, hreader'⟩ := c.queue.recv_frame c.cancelled
    have hlength := c.queue.length_buffer_recv_le c.cancelled
    obtain ⟨r, q, hread⟩ : ∃ r q, c.queue.recv c.cancelled = (r, q) := ⟨_, _, rfl⟩
    have hrecv := recv_of_use use hspent hread
    rw [← huse] at hrecv
    rw [hread] at hcapacity hwaiting hwriter hreader' hlength
    have hnext : (c.perform .recv).2 = _ := congrArg Prod.snd hrecv
    rw [hnext]
    cases hlive : ReaderUse.isLive (use.take r).2 with
    | false => exact h.dropReader hcapacity hwaiting hwriter hlive
    | true =>
      refine ⟨hcapacity.trans h.capacity, ?_, fun n hn => ⟨(h.fits n hn).1,
        Nat.le_trans hlength (h.fits n hn).2⟩, fun entry hentry =>
        hwriter.trans (h.writer entry (hwaiting.symm.trans hentry)),
        fun hwriter' _ hcancelled => ?_⟩
      · show ReaderUse.isLive (use.take r).2 = !q.readerGone
        rw [hlive, hreader', hreader]
        rfl
      · have hgoing := hwriter.symm.trans hwriter'
        obtain ⟨hfinished, items, hitems⟩ := h.going hgoing hreader hcancelled
        obtain ⟨r', hread', -⟩ := h.queue_recv hgoing hreader hcancelled
        obtain ⟨rfl, rfl⟩ := Prod.mk.inj (hread.symm.trans hread')
        exact ⟨hfinished, items.tail, by rw [if_pos rfl, hitems, List.map_tail]⟩

/-- The writer puts in an entry, unless it has gone or is busy. -/
theorem write (h : c.Slotted slots) {op : Operation α} {entry : Entry α}
    (hop : op.enters? = some entry) : (c.perform op).2.Slotted slots := by
  cases hwriter : c.queue.writerGone with
  | true =>
    have hgone : c.perform op = (.gone, c) := by
      cases op <;> cases hop <;> simp [perform, Channel.write, hwriter]
    exact hgone ▸ h
  | false =>
    cases hwaiting : c.queue.waiting with
    | some other => exact perform_of_enters?_of_waiting hop hwriter hwaiting ▸ h
    | none =>
      rw [perform_of_enters? hop hwriter hwaiting]
      exact h.attempted hwriter entry

/-- Whatever is done with the handles, the buffer keeps to the slots. -/
theorem perform (h : c.Slotted slots) (op : Operation α) : (c.perform op).2.Slotted slots := by
  cases op with
  | push a => exact h.write rfl
  | close => exact h.write rfl
  | fail e => exact h.write rfl
  | resume =>
    cases hwriter : c.queue.writerGone with
    | true => simpa [Channel.perform, Channel.resume, hwriter] using h
    | false =>
      cases hwaiting : c.queue.waiting with
      | none => simpa [Channel.perform, Channel.resume, hwriter, hwaiting] using h
      | some entry =>
        rw [perform_resume hwriter hwaiting]
        exact h.attempted hwriter entry
  | withdraw =>
    simp only [Channel.perform, Channel.withdraw]
    split
    next => exact h
    next entry hwaiting =>
      refine ⟨h.capacity, h.reader, h.fits, fun entry hentry => ?_, fun _ => ?_⟩
      · cases hentry
      · exact h.going (h.writer entry hwaiting)
  | dropWriter =>
    refine ⟨h.capacity, h.reader, h.fits, fun entry hentry => ?_, fun hwriter => ?_⟩
    · cases hentry
    · cases hwriter
  | recv => exact h.recv
  | isFinished =>
    simp only [Channel.perform, handle]
    split <;> exact h
  | collectAll | stream =>
    simp only [Channel.perform, handle]
    split
    next hentries =>
      have hlive := h.reader
      rw [hentries] at hlive
      exact ⟨h.capacity, hlive, h.fits, h.writer, h.going⟩
    next => exact h
  | dropReader => exact h.dropReader rfl rfl rfl rfl
  | cancel =>
    refine ⟨h.capacity, h.reader, h.fits, h.writer, fun _ _ hcancelled => ?_⟩
    cases hcancelled

/-- After any operations the buffer keeps to the slots. -/
theorem after (h : c.Slotted slots) (ops : List (Operation α)) : (c.after ops).Slotted slots := by
  induction ops generalizing c with
  | nil => exact h
  | cons op ops ih => exact ih (h.perform op)

end Slotted

/-! ## Entries that are put in -/

/-- The operation tries to put in the entry: a new one where nothing is outstanding, or the one that
is. -/
def Tries (c : Channel α) (op : Operation α) (entry : Entry α) : Prop :=
  c.queue.writerGone = false ∧ c.queue.waiting = none ∧ op.enters? = some entry ∨
    c.queue.waiting = some entry ∧ op = .resume

/-- Only an attempt to put in an entry is answered with what became of one. -/
theorem exists_tries_of_sent {c : Channel α} {op : Operation α} {o : Sent}
    (h : (c.perform op).1 = .sent o) : ∃ entry, c.Tries op entry := by
  have hwrite : ∀ entry, (c.write entry).1 = .sent o →
      c.queue.writerGone = false ∧ c.queue.waiting = none := by
    intro entry h
    unfold write at h
    cases hwriter : c.queue.writerGone with
    | true => simp [hwriter] at h
    | false =>
      cases hwaiting : c.queue.waiting with
      | some other => simp [hwriter, hwaiting] at h
      | none => exact ⟨rfl, rfl⟩
  cases op with
  | push a => exact ⟨_, .inl ⟨(hwrite _ h).1, (hwrite _ h).2, rfl⟩⟩
  | close => exact ⟨_, .inl ⟨(hwrite _ h).1, (hwrite _ h).2, rfl⟩⟩
  | fail e => exact ⟨_, .inl ⟨(hwrite _ h).1, (hwrite _ h).2, rfl⟩⟩
  | resume =>
    simp only [perform, resume] at h
    split at h
    · cases h
    · split at h
      · cases h
      next entry hwaiting => exact ⟨entry, .inr ⟨hwaiting, rfl⟩⟩
  | withdraw | dropWriter | dropReader | cancel => cases h
  | recv =>
    simp only [perform, recv] at h
    split at h
    · cases h
    · cases h
    next use _ _ =>
      cases use <;> cases hread : (c.queue.recv c.cancelled).1 <;>
        simp [hread, ReaderUse.take] at h
  | isFinished | collectAll | stream =>
    simp only [perform, handle] at h
    split at h <;> cases h

namespace Slotted

variable {slots : Option Nat} {c : Channel α}

/-- What becomes of an entry, and what the queue is then. -/
theorem perform_of_tries (h : c.Slotted slots) {op : Operation α} {entry : Entry α}
    (htries : c.Tries op entry) :
    c.perform op = (.sent (c.fate slots), c.attempted entry (c.fate slots)) := by
  rw [← h.verdict_eq_fate]
  rcases htries with ⟨hwriter, hwaiting, hop⟩ | ⟨hwaiting, rfl⟩
  · exact perform_of_enters? hop hwriter hwaiting
  · exact perform_resume (h.writer entry hwaiting) hwaiting

end Slotted

/-! ## Entries that are outstanding -/

/-- Does the operation leave the outstanding entry alone, and both handles where they are? -/
def Operation.passes : Operation α → Bool
  | .recv | .isFinished | .collectAll | .stream => true
  | op => op.enters?.isSome

/-- Is the operation a read? -/
def Operation.isRead : Operation α → Bool
  | .recv => true
  | _ => false

namespace Slotted

variable {slots : Option Nat} {c : Channel α} {entry : Entry α}

/-- While an entry is outstanding, reads take what is buffered, and nothing is put in. -/
theorem perform_of_passes (h : c.Slotted slots) (hwaiting : c.queue.waiting = some entry)
    (hreader : c.queue.readerGone = false) (hcancelled : c.cancelled = false) {op : Operation α}
    (hpasses : op.passes = true) :
    ∃ reader, (c.perform op).2 = { c with reader, queue := { c.queue with
      buffer := if op.isRead then c.queue.buffer.tail else c.queue.buffer } } := by
  have hwriter := h.writer entry hwaiting
  have hbusy : ∀ (op : Operation α) {other}, op.enters? = some other → (c.perform op).2 = c :=
    fun op _ hop => by rw [perform_of_enters?_of_waiting hop hwriter hwaiting]
  cases op with
  | recv => exact h.recv_eq hwriter hreader hcancelled
  | isFinished | collectAll | stream =>
    simp only [Channel.perform, handle]
    split
    · exact ⟨_, rfl⟩
    · exact ⟨_, rfl⟩
  | push a => exact ⟨_, hbusy _ rfl⟩
  | close => exact ⟨_, hbusy _ rfl⟩
  | fail e => exact ⟨_, hbusy _ rfl⟩
  | resume | withdraw | dropWriter | dropReader | cancel => cases hpasses

/-- After such operations the rest of the buffer is left, and the entry is still outstanding. -/
theorem after_of_passes (h : c.Slotted slots) (hwaiting : c.queue.waiting = some entry)
    (hreader : c.queue.readerGone = false) (hcancelled : c.cancelled = false)
    {between : List (Operation α)} (hpasses : ∀ op ∈ between, op.passes = true) :
    ∃ reader, c.after between = { c with reader, queue := { c.queue with
      buffer := c.queue.buffer.drop (between.countP Operation.isRead) } } := by
  induction between generalizing c with
  | nil => exact ⟨_, rfl⟩
  | cons op between ih =>
    rw [List.forall_mem_cons] at hpasses
    obtain ⟨reader, hop⟩ := h.perform_of_passes hwaiting hreader hcancelled hpasses.1
    have hslotted := h.perform op
    rw [hop] at hslotted
    obtain ⟨reader', hrest⟩ := ih hslotted hwaiting hreader hcancelled hpasses.2
    have hstep : c.after (op :: between) = (c.perform op).2.after between := rfl
    refine ⟨reader', ?_⟩
    rw [hstep, hop, hrest, List.countP_cons]
    cases op.isRead with
    | true => simp [List.drop_tail]
    | false => rfl

/-- An outstanding entry lands behind what is left of the buffer, once there was a read. -/
theorem lands_after_read (h : c.Slotted slots) (hwaiting : c.queue.waiting = some entry)
    (hreader : c.queue.readerGone = false) (hcancelled : c.cancelled = false)
    {between : List (Operation α)} (hpasses : ∀ op ∈ between, op.passes = true)
    (hread : 0 < between.countP Operation.isRead) :
    ((c.after between).perform .resume).1 = .sent .landed ∧
      ((c.after between).perform .resume).2.queue.buffer =
        c.queue.buffer.drop (between.countP Operation.isRead) ++ [entry] := by
  obtain ⟨reader, hafter⟩ := h.after_of_passes hwaiting hreader hcancelled hpasses
  have hslotted := h.after between
  rw [hafter] at hslotted
  have hroom : slots ≠ some (c.queue.buffer.length - between.countP Operation.isRead) := by
    intro hfull
    have hfits := h.fits _ hfull
    omega
  have hfate : fate slots { c with reader, queue := { c.queue with
      buffer := c.queue.buffer.drop (between.countP Operation.isRead) } } = .landed := by
    simp [fate, hreader, hcancelled, hroom]
  rw [hafter, hslotted.perform_of_tries (.inr ⟨hwaiting, rfl⟩), hfate]
  exact ⟨rfl, rfl⟩

/-- Where the queue goes on, an entry lands if there is a slot for it. -/
theorem fate_eq_landed_iff (h : c.Slotted slots) (hreader : c.queue.readerGone = false)
    (hcancelled : c.cancelled = false) :
    c.fate slots = .landed ↔ ∀ n, slots = some n → c.queue.buffer.length + 1 ≤ n := by
  rw [fate, hcancelled, hreader, if_neg Bool.false_ne_true, if_neg Bool.false_ne_true]
  constructor
  · intro hlanded n hn
    have hfits := (h.fits n hn).2
    split at hlanded
    · cases hlanded
    next hroom =>
      have hne : n ≠ c.queue.buffer.length := fun heq => hroom (heq ▸ hn)
      omega
  · intro hroom
    rw [if_neg fun hfull => Nat.lt_irrefl _ (hroom _ hfull)]

/-- Items and one more entry, with no reader running, land if there are slots for all of them. -/
theorem all_landed_iff (h : c.Slotted slots) (hwriter : c.queue.writerGone = false)
    (hwaiting : c.queue.waiting = none) (hreader : c.queue.readerGone = false)
    (hcancelled : c.cancelled = false) (items : List α) {last : Operation α}
    (hlast : last.enters? = some entry) :
    (∀ t ∈ c.transcript (items.map .push ++ [last]), t.2 = .sent .landed) ↔
      ∀ n, slots = some n → c.queue.buffer.length + items.length + 1 ≤ n := by
  have hfate := h.fate_eq_landed_iff hreader hcancelled
  induction items generalizing c with
  | nil =>
    have hperform := h.perform_of_tries (.inl ⟨hwriter, hwaiting, hlast⟩)
    simp only [List.map_nil, List.nil_append, transcript, List.forall_mem_singleton, hperform,
      Answer.sent.injEq, hfate, List.length_nil, Nat.add_zero]
  | cons a items ih =>
    have htries : c.Tries (.push a) (.item a) := .inl ⟨hwriter, hwaiting, rfl⟩
    have hperform := h.perform_of_tries htries
    rw [List.map_cons, List.cons_append, transcript, List.forall_mem_cons, hperform,
      Answer.sent.injEq, List.length_cons]
    by_cases hlanded : c.fate slots = .landed
    · have hnext := h.attempted hwriter (.item a)
      rw [h.verdict_eq_fate, hlanded] at hnext
      rw [hlanded]
      have hwriter' : (c.attempted (.item a) .landed).queue.writerGone = false := by
        simp [Channel.attempted, hwriter, endsQueue]
      have hrest := ih hnext hwriter' rfl hreader hcancelled
        (hnext.fate_eq_landed_iff hreader hcancelled)
      have hlength : (c.attempted (.item a) .landed).queue.buffer.length =
          c.queue.buffer.length + 1 := by
        simp [Channel.attempted]
      rw [hlength] at hrest
      refine ⟨fun hall n hn => ?_, fun hroom => ⟨rfl, hrest.2 fun n hn => ?_⟩⟩
      · have := hrest.1 hall.2 n hn
        omega
      · have := hroom n hn
        omega
    · refine iff_of_false (fun hall => hlanded hall.1) fun hroom => hlanded (hfate.2 fun n hn => ?_)
      have := hroom n hn
      omega

end Slotted

/-- **The slots bound the buffer.** Whatever was done to a queue, with a limit on its slots or
without, no more is buffered than there are slots, items and end together. An operation that tries
to put in an entry, be it a new one or the one that is outstanding, is answered by what is the case
at that moment: the queue was cancelled; or its reader has gone; or all slots are taken and the
entry waits; or it lands behind what is buffered. No other operation suspends.

An entry that is outstanding lands, when it is resumed after the next read, behind what is then
left. Items and an end that are put in with no reader running all land at once exactly if there are
slots for them and for the end. A queue without a limit never suspends. -/
theorem slots_bound_the_buffer (capacity : Option Nat) (ops : List (Operation α)) :
    let c : Channel α := (start capacity).after ops
    let fate : Sent :=
      if c.cancelled then .refused .cancelled
      else if c.queue.readerGone then .refused .readerGone
      else if capacity.map (max · 1) = some c.queue.buffer.length then .suspended
      else .landed
    (∀ slots, capacity = some slots → c.queue.buffer.length ≤ max slots 1) ∧
    (∀ op o, (c.perform op).1 = .sent o → ∃ entry, c.Tries op entry) ∧
    (∀ op entry, c.Tries op entry →
      (c.perform op).1 = .sent fate ∧
      (c.perform op).2.queue.buffer =
        c.queue.buffer ++ (if fate = .landed then [entry] else []) ∧
      (c.perform op).2.queue.waiting = if fate = .suspended then some entry else none) ∧
    (∀ entry, c.queue.waiting = some entry → c.queue.readerGone = false → c.cancelled = false →
      ∀ between : List (Operation α), (∀ op ∈ between, op.passes = true) →
        0 < between.countP Operation.isRead →
        ((c.after between).perform .resume).1 = .sent .landed ∧
        ((c.after between).perform .resume).2.queue.buffer =
          c.queue.buffer.drop (between.countP Operation.isRead) ++ [entry]) ∧
    (∀ (items : List α) (last : Operation α), last.enters?.isSome →
      ((∀ t ∈ (start capacity).transcript (items.map .push ++ [last]), t.2 = .sent .landed) ↔
        ∀ slots, capacity = some slots → items.length + 1 ≤ max slots 1)) ∧
    (capacity = none → ∀ op, (c.perform op).1 ≠ .sent .suspended) := by
  intro c fate
  have hstart : (start capacity : Channel α).Slotted (capacity.map (max · 1)) :=
    slotted_start capacity
  have hslotted : c.Slotted (capacity.map (max · 1)) := hstart.after ops
  have htried : ∀ op entry, c.Tries op entry →
      c.perform op = (.sent fate, c.attempted entry fate) :=
    fun op entry htries => hslotted.perform_of_tries htries
  refine ⟨?_, fun op o => exists_tries_of_sent, ?_, ?_, ?_, ?_⟩
  · rintro slots rfl
    exact (hslotted.fits _ rfl).2
  · intro op entry htries
    rw [htried op entry htries]
    refine ⟨rfl, ?_, ?_⟩
    · cases fate <;> simp [attempted]
    · cases fate <;> simp [attempted]
  · exact fun entry hwaiting hreader hcancelled between hpasses hread =>
      hslotted.lands_after_read hwaiting hreader hcancelled hpasses hread
  · intro items last hlast
    obtain ⟨entry, hentry⟩ := Option.isSome_iff_exists.1 hlast
    have hall := hstart.all_landed_iff (by cases capacity <;> rfl) (by cases capacity <;> rfl)
      (by cases capacity <;> rfl) (by cases capacity <;> rfl) items hentry
    have hempty : (start capacity : Channel α).queue.buffer.length = 0 := by
      cases capacity <;> rfl
    rw [hall, hempty, Nat.zero_add]
    constructor
    · rintro hroom slots rfl
      exact hroom _ rfl
    · intro hroom n hn
      obtain ⟨slots, hslots, rfl⟩ := Option.map_eq_some_iff.1 hn
      exact hroom slots hslots
  · rintro rfl op hsuspended
    obtain ⟨entry, htries⟩ := exists_tries_of_sent hsuspended
    rw [htried op entry htries] at hsuspended
    exact fate_none_ne_suspended c (Answer.sent.inj hsuspended)

end Channel

end Sidecar
