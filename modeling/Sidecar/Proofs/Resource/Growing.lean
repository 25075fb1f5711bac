import Sidecar.Proofs.Resource.Putting

/-!
# Resources that grow while they are read

Whoever has a resource open may find that its file has grown since the last poll. A `Disk.Watch` is
an open resource together with what its polls were answered, and what happens to it is that it is
polled, or that somebody puts more at the end of a file, be it this one or another
(`FileTree.extend`).

The handle stands where the delivered bytes end (`Disk.Watch.Follows`), however short the buffers
before were. So each poll brings the bytes from there on, up to a chunk or to the end that the file
has by then, and the resource is over for good with the first poll that finds nothing new
(`Disk.growing_resource_is_read_through`).
-/

namespace Sidecar

namespace FileTree

variable {tree : FileTree} {path q : Path} {content more : Bytes}

/-- Put more at the end of the file that is at a path, if there is one. -/
def extend (tree : FileTree) (path : Path) (more : Bytes) : FileTree :=
  match tree.find? path with
  | some (.file content) => tree.place path (.file (content ++ more))
  | _ => tree

/-- A file holds what it held, and what was put at its end. -/
theorem find?_extend (hfile : tree.find? q = some (.file content)) :
    (tree.extend path more).find? q =
      some (.file (content ++ if path = q then more else [])) := by
  unfold extend
  by_cases hq : path = q
  · subst hq
    have hfixed := not_isFixed_of_find?_ne tree (q := path) (by rw [hfile]; nofun)
    simp only [hfile, if_true, find?_place_self hfixed]
  · rw [if_neg hq, List.append_nil, ← hfile]
    split
    · exact find?_place_of_ne (Ne.symm hq) _
    · rfl

/-- A text that leads to a file has more put at the end of that file. -/
theorem appendFile?_eq_extend {tree' : FileTree} {text : String}
    (h : tree.appendFile? text more = some tree') :
    ∃ path, (Spelling.ofText? text >>= tree.target?) = some path ∧
      tree' = tree.extend path more := by
  unfold appendFile? at h
  split at h
  next old hfound =>
    obtain ⟨s, hs, hplace⟩ := Option.bind_eq_some_iff.1 hfound
    obtain ⟨path, hpath, hold⟩ := Option.bind_eq_some_iff.1 hplace
    have hfile : tree.find? path = some (.file old) := by
      split at hold
      next hfind =>
        split at hold
        · cases hold
        · rw [hfind, hold]
      next => exact hold
    have htarget : (Spelling.ofText? text >>= tree.target?) = some path :=
      Option.bind_eq_some_iff.2 ⟨s, hs, hpath⟩
    refine ⟨path, htarget, ?_⟩
    -- Writing goes where finding has come to.
    obtain ⟨s', hs', hwrite⟩ := Option.bind_eq_some_iff.1 h
    obtain rfl : s = s' := Option.some.inj (hs.symm.trans hs')
    split at hwrite
    · cases hwrite
    obtain ⟨path', hpath', hwrite⟩ := Option.bind_eq_some_iff.1 hwrite
    obtain rfl : path = path' := Option.some.inj (hpath.symm.trans hpath')
    obtain ⟨-, rfl⟩ := write?_eq_some hwrite
    simp only [extend, hfile]
  next => cases h

end FileTree

namespace Disk

/-! ## One poll -/

/-- A poll of a file brings the bytes from where the handle stands, up to a chunk or to the end of
the file. It ends the resource where there are none. -/
theorem poll_of_file {disk : Disk} {path : Path} {content : Bytes} (hchunk : 0 < disk.chunk)
    (hfile : disk.tree.find? path = some (.file content)) (offset : Nat) :
    disk.poll ⟨path, offset, false⟩ =
      if offset < content.length then
        (some (.ok ((content.drop offset).take disk.chunk)),
          ⟨path, offset + ((content.drop offset).take disk.chunk).length, false⟩)
      else (none, ⟨path, offset, true⟩) := by
  simp only [poll, hfile, Bool.false_eq_true, if_false]
  by_cases hleft : offset < content.length
  · rw [if_pos hleft]
    split
    next hnil =>
      have hlength := congrArg List.length hnil
      rw [List.length_take, List.length_drop, List.length_nil] at hlength
      omega
    next => rfl
  · rw [if_neg hleft, List.drop_eq_nil_of_le (Nat.le_of_not_lt hleft), List.take_nil]

/-! ## A resource that is watched -/

/-- An open resource on its disk, and what its polls were answered. -/
structure Watch where
  disk : Disk
  reader : Reader
  answers : List (Option (Except StorageError Bytes))

namespace Watch

/-- What happens: the resource is polled, or more is put at the end of a file. -/
inductive Event where
  | poll
  | append (path : Path) (more : Bytes)

/-- A resource that was just opened. -/
def opened (disk : Disk) (handle : Handle) : Watch := ⟨disk, ⟨handle, 0⟩, []⟩

/-- The resource after an event. -/
def step (grant : Nat → Nat) (w : Watch) : Event → Watch
  | .poll =>
    let (answer, reader) := w.disk.pollBy grant w.reader
    { w with reader, answers := w.answers ++ [answer] }
  | .append path more => { w with disk := { w.disk with tree := w.disk.tree.extend path more } }

/-- The resource after some events. -/
def run (grant : Nat → Nat) (w : Watch) (es : List Event) : Watch := es.foldl (step grant) w

/-- The bytes an answer brings. -/
def bytes : Option (Except StorageError Bytes) → Bytes
  | some (.ok data) => data
  | _ => []

/-- The bytes that were delivered. -/
def delivered (w : Watch) : Bytes := w.answers.flatMap bytes

/-- Was a poll told that the resource is over? -/
def isOver (w : Watch) : Bool := w.answers.any Option.isNone

/-- What an event puts at the end of the file at a path. -/
def Event.added (path : Path) : Event → Bytes
  | .poll => []
  | .append path' more => if path' = path then more else []

/-- What a poll is due of a file, where so many bytes were delivered: those that follow, up to a
chunk or to the end. -/
def due (chunk : Nat) (content : Bytes) (p : Nat) : Option (Except StorageError Bytes) :=
  if p < content.length then
    some (.ok ((content.take (min (p + chunk) content.length)).drop p))
  else none

/-- The handle stands in the file where the delivered bytes end. -/
structure Follows (chunk : Nat) (path : Path) (content : Bytes) (w : Watch) : Prop where
  chunk : w.disk.chunk = chunk
  file : w.disk.tree.find? path = some (.file content)
  handle : w.reader.handle = ⟨path, w.delivered.length, w.isOver⟩
  delivered : w.delivered <+: content
  answers : ∀ answer ∈ w.answers, ∀ e, answer ≠ some (.error e)

/-- The bytes from a place in the file, up to a chunk or to the end. -/
theorem drop_take_min (content : Bytes) (p chunk : Nat) :
    (content.take (min (p + chunk) content.length)).drop p = (content.drop p).take chunk := by
  rw [List.drop_take, List.take_eq_take_iff, List.length_drop]
  omega

theorem delivered_answer (w : Watch) (reader : Reader)
    (answer : Option (Except StorageError Bytes)) :
    delivered { w with reader, answers := w.answers ++ [answer] } =
      w.delivered ++ bytes answer := by
  simp [delivered]

theorem isOver_answer (w : Watch) (reader : Reader) (answer : Option (Except StorageError Bytes)) :
    isOver { w with reader, answers := w.answers ++ [answer] } = (w.isOver || answer.isNone) := by
  simp [isOver]

namespace Follows

variable {chunk : Nat} {path : Path} {content : Bytes} {w : Watch}

/-- A resource that was just opened. -/
theorem opened {disk : Disk} (hfile : disk.tree.find? path = some (.file content)) :
    Follows disk.chunk path content (opened disk ⟨path, 0, false⟩) :=
  ⟨rfl, hfile, rfl, List.nil_prefix, nofun⟩

/-- What a poll comes to: the resource was over before; or the next bytes are delivered; or there
are none and the resource is over. -/
theorem pollBy (h : w.Follows chunk path content) (hchunk : 0 < chunk) (grant : Nat → Nat) :
    ∃ answer, (w.disk.pollBy grant w.reader).1 = answer ∧
      answer = (if w.isOver then none else due chunk content w.delivered.length) ∧
      (w.disk.pollBy grant w.reader).2.handle =
        ⟨path, (w.delivered ++ bytes answer).length, w.isOver || answer.isNone⟩ := by
  obtain ⟨hanswer, hhandle⟩ := w.disk.pollBy_eq grant w.reader
  refine ⟨_, rfl, ?_, ?_⟩
  · rw [hanswer, h.handle]
    cases w.isOver with
    | true => rfl
    | false =>
      rw [poll_of_file (h.chunk ▸ hchunk) h.file, h.chunk, due, drop_take_min]
      split <;> rfl
  · rw [hanswer, hhandle, h.handle]
    cases w.isOver with
    | true => simp [poll, bytes]
    | false =>
      rw [poll_of_file (h.chunk ▸ hchunk) h.file]
      split
      next => simp [bytes]
      next => simp [bytes]

/-- What a poll is due continues what was delivered. -/
theorem append_due (h : w.Follows chunk path content) :
    w.delivered ++ bytes (due chunk content w.delivered.length) <+: content := by
  unfold due
  split
  next =>
    have hstart : w.delivered = content.take w.delivered.length :=
      List.prefix_iff_eq_take.1 h.delivered
    have hnext : w.delivered ++ (content.drop w.delivered.length).take chunk =
        content.take (w.delivered.length + chunk) := by
      rw [List.take_add, ← hstart]
    rw [bytes, drop_take_min, hnext]
    exact List.take_prefix _ _
  next => simpa [bytes] using h.delivered

/-- An event leaves the handle where the delivered bytes end, in the file as it then is. -/
theorem step (h : w.Follows chunk path content) (hchunk : 0 < chunk) (grant : Nat → Nat)
    (e : Event) : (w.step grant e).Follows chunk path (content ++ e.added path) := by
  cases e with
  | append path' more =>
    exact ⟨h.chunk, FileTree.find?_extend h.file, h.handle,
      h.delivered.trans (List.prefix_append _ _), h.answers⟩
  | poll =>
    obtain ⟨answer, hpoll, hdue, hhandle⟩ := h.pollBy hchunk grant
    simp only [Watch.step, hpoll, Event.added, List.append_nil]
    refine ⟨h.chunk, h.file, ?_, ?_, ?_⟩
    · rw [delivered_answer, isOver_answer, hhandle]
    · rw [delivered_answer, hdue]
      split
      · simpa [bytes] using h.delivered
      · exact h.append_due
    · intro answer' hmem e'
      rcases List.mem_append.1 hmem with hmem | hmem
      · exact h.answers answer' hmem e'
      · rw [List.mem_singleton.1 hmem, hdue]
        unfold due
        split
        · nofun
        · split <;> nofun

/-- Whatever happens, the handle stands where the delivered bytes end. -/
theorem run (h : w.Follows chunk path content) (hchunk : 0 < chunk) (grant : Nat → Nat)
    (es : List Event) :
    (w.run grant es).Follows chunk path (content ++ es.flatMap (Event.added path)) := by
  induction es generalizing w content with
  | nil => simpa [Watch.run] using h
  | cons e es ih =>
    have hrest := ih (h.step hchunk grant e)
    rwa [List.append_assoc] at hrest

end Follows

end Watch

/-- **A resource that grows is read through.** Whatever is put at the end of the file of an open
resource, and of other files, between its polls, and however much each read brings: the delivered
bytes begin what the file holds. As long as the resource is not over, a poll brings the bytes that
follow, up to a chunk or to the end that the file has by then. Where there are none it ends the
resource, for good, and nothing else ends it. -/
theorem growing_resource_is_read_through {disk : Disk} {key : String} {initial : Bytes}
    (hchunk : 0 < disk.chunk)
    (hfile : disk.tree.find? (disk.path key) = some (.file initial)) (grant : Nat → Nat) :
    ∃ handle, disk.openFile key = .ok handle ∧ ∀ events : List Watch.Event,
      let w := (Watch.opened disk handle).run grant events
      let content := initial ++ events.flatMap (Watch.Event.added (disk.path key))
      let p := w.delivered.length
      w.disk.tree.find? (disk.path key) = some (.file content) ∧
      w.delivered <+: content ∧
      (∀ answer ∈ w.answers, ∀ e, answer ≠ some (.error e)) ∧
      (w.disk.pollBy grant w.reader).1 =
        if w.isOver then none
        else if p < content.length then
          some (.ok ((content.take (min (p + disk.chunk) content.length)).drop p))
        else none := by
  have hcontains : disk.tree.contains (disk.path key) = true := by
    simp [FileTree.contains, hfile]
  refine ⟨⟨disk.path key, 0, false⟩, by simp [openFile, hcontains], fun events => ?_⟩
  have hfollows := (Watch.Follows.opened hfile).run hchunk grant events
  obtain ⟨answer, hpoll, hdue, -⟩ := hfollows.pollBy hchunk grant
  exact ⟨hfollows.file, hfollows.delivered, hfollows.answers, hpoll.trans hdue⟩

/-- What is put at the end of a file before the first poll is part of what that poll brings. -/
theorem growing_resource_is_read_through_longer :
    let fresh : Disk := ⟨["store"], 8, .empty⟩
    let disk := { fresh with tree := fresh.tree.place (fresh.path "grow") (.file [1, 2, 3, 4]) }
    0 < disk.chunk ∧ disk.tree.find? (disk.path "grow") = some (.file [1, 2, 3, 4]) ∧
      ∀ grant, ∃ handle, disk.openFile "grow" = .ok handle ∧
        let w := (Watch.opened disk handle).run grant [.append (disk.path "grow") [5, 6]]
        (w.disk.pollBy grant w.reader).1 = some (.ok [1, 2, 3, 4, 5, 6]) := by
  intro fresh disk
  have hfile : disk.tree.find? (disk.path "grow") = some (.file [1, 2, 3, 4]) := by
    have hpath : disk.path "grow" = fresh.path "grow" := path_of_root_eq rfl "grow"
    rw [hpath]
    exact FileTree.find?_place_self (fresh.isFixed_path "grow") _
  refine ⟨by decide, hfile, fun grant => ?_⟩
  obtain ⟨handle, hopen, hevents⟩ :=
    @growing_resource_is_read_through disk "grow" [1, 2, 3, 4] (by decide) hfile grant
  obtain ⟨-, -, -, hpoll⟩ := hevents [.append (disk.path "grow") [5, 6]]
  refine ⟨handle, hopen, hpoll.trans ?_⟩
  rw [List.flatMap_singleton, Watch.Event.added, if_pos rfl]
  rfl

end Disk

end Sidecar
