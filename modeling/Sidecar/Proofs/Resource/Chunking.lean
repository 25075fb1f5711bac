import Sidecar.Resource.Reading

/-!
# The chunks of a resource

However little each read brings, a chunk comes out as if it had been read at once (`fill_fst`), so
reading a resource read by read is reading it chunk by chunk (`Disk.getBy_eq`). The chunks of a file
are what its content is cut into (`Chunked`): full ones, and then one that may be shorter but is not
empty (`Disk.get_of_file`).
-/

namespace Sidecar

/-! ## Reads -/

theorem readSome_eq_nil_iff {granted room : Nat} {left : Bytes} (hroom : room ≠ 0) :
    readSome granted room left = [] ↔ left = [] := by
  have hsome : min room (max granted 1) ≠ 0 := by omega
  simp [readSome, List.take_eq_nil_iff, hsome]

/-- Reads that bring a part each bring what one read could have brought. -/
theorem fill_fst (grant : Nat → Nat) (reads room : Nat) (left : Bytes) :
    (fill grant reads room left).1 = left.take room := by
  fun_induction fill grant reads room left with
  | case1 reads left => rw [List.take_zero]
  | case2 reads room left hroom hread =>
    rw [(readSome_eq_nil_iff hroom).1 hread, List.take_nil]
  | case3 reads room left hroom b piece hread more reads' hfill ih =>
    have hlen : piece.length + 1 ≤ room := by
      have := congrArg List.length hread
      simp only [readSome, List.length_take, List.length_cons] at this
      omega
    have hbegins : b :: piece <+: left := by
      rw [← hread, readSome]
      exact List.take_prefix _ left
    have hpiece : b :: piece = left.take (piece.length + 1) := List.prefix_iff_eq_take.1 hbegins
    rw [hfill] at ih
    simp only at ih
    calc b :: piece ++ more
        = left.take (piece.length + 1) ++
            (left.drop (piece.length + 1)).take (room - (piece.length + 1)) := by rw [hpiece, ih]
      _ = left.take (piece.length + 1 + (room - (piece.length + 1))) := List.take_add.symm
      _ = left.take room := by rw [Nat.add_sub_cancel' hlen]

namespace Disk

/-- A poll that reads part by part is answered what a poll is answered that reads at once. -/
theorem pollBy_eq (disk : Disk) (grant : Nat → Nat) (reader : Reader) :
    (disk.pollBy grant reader).1 = (disk.poll reader.handle).1 ∧
      (disk.pollBy grant reader).2.handle = (disk.poll reader.handle).2 := by
  obtain ⟨⟨path, offset, finished⟩, reads⟩ := reader
  cases finished with
  | true => exact ⟨rfl, rfl⟩
  | false =>
    cases hfind : disk.tree.find? path with
    | none => simp [pollBy, poll, hfind]
    | some node =>
      cases node with
      | directory => simp [pollBy, poll, hfind]
      | file content =>
        have hfill := fill_fst grant reads disk.chunk (content.drop offset)
        cases hread : fill grant reads disk.chunk (content.drop offset) with
        | mk chunk reads' =>
          rw [hread] at hfill
          simp only at hfill
          simp only [pollBy, poll, hfind, hread, ← hfill, Bool.false_eq_true, if_false]
          cases chunk <;> exact ⟨rfl, rfl⟩

theorem pollAllBy_eq (disk : Disk) (grant : Nat → Nat) (n : Nat) (reader : Reader) :
    disk.pollAllBy grant n reader = disk.pollAll n reader.handle := by
  induction n generalizing reader with
  | zero => rfl
  | succ n ih =>
    obtain ⟨hanswer, hhandle⟩ := disk.pollBy_eq grant reader
    rw [pollAllBy, pollAll]
    cases hby : disk.pollBy grant reader with
    | mk answer reader' =>
      cases hpoll : disk.poll reader.handle with
      | mk answer' handle' =>
        rw [hby, hpoll] at hanswer hhandle
        obtain rfl : answer = answer' := hanswer
        obtain rfl : reader'.handle = handle' := hhandle
        cases answer with
        | none => rfl
        | some read => exact congrArg (read :: ·) (ih reader')

/-- However much each read brings, a resource has the same chunks. -/
theorem getBy_eq (disk : Disk) (grant : Nat → Nat) (key : String) :
    disk.getBy grant key = disk.get key := by
  unfold getBy get
  congr 1
  exact funext fun handle => disk.pollAllBy_eq grant _ _

end Disk

/-! ## Chunks -/

/-- What content is cut into where it is read in chunks: all of it, in order, each buffer but the
last one full, and the last one neither empty nor too long. -/
structure Chunked (chunk : Nat) (content : Bytes) (buffers : List Bytes) : Prop where
  whole : buffers.flatten = content
  full : ∀ b ∈ buffers.dropLast, b.length = chunk
  last : ∀ b, buffers.getLast? = some b → 0 < b.length ∧ b.length ≤ chunk

namespace Chunked

variable {chunk : Nat} {content : Bytes} {buffers : List Bytes}

theorem nil (chunk : Nat) : Chunked chunk [] [] := ⟨rfl, nofun, nofun⟩

/-- Where there is nothing to read there is no buffer. -/
theorem eq_nil (h : Chunked chunk [] buffers) : buffers = [] := by
  cases hlast : buffers.getLast? with
  | none => exact List.getLast?_eq_none_iff.1 hlast
  | some b =>
    have hb := List.flatten_eq_nil_iff.1 h.whole b (List.mem_of_getLast? hlast)
    have := (h.last b hlast).1
    rw [hb] at this
    cases this

/-- One more chunk in front. -/
theorem cons (hchunk : 0 < chunk) (hcontent : content ≠ [])
    (h : Chunked chunk (content.drop chunk) buffers) :
    Chunked chunk content (content.take chunk :: buffers) := by
  have hwhole : (content.take chunk :: buffers).flatten = content := by
    rw [List.flatten_cons, h.whole, List.take_append_drop]
  cases buffers with
  | nil =>
    refine ⟨hwhole, nofun, fun b hb => ?_⟩
    obtain rfl : content.take chunk = b := Option.some.inj hb
    have := List.length_pos_iff.2 hcontent
    rw [List.length_take]
    omega
  | cons b rest =>
    refine ⟨hwhole, fun a ha => ?_, fun a ha => h.last a ?_⟩
    · rw [List.dropLast_cons_cons] at ha
      rcases List.mem_cons.1 ha with rfl | ha
      · -- Something follows this chunk, so it is full.
        have hmore : content.drop chunk ≠ [] := by
          intro hnil
          rw [hnil] at h
          cases h.eq_nil
        have := List.length_pos_iff.2 hmore
        rw [List.length_drop] at this
        rw [List.length_take]
        omega
      · exact h.full a ha
    · rwa [List.getLast?_cons_cons] at ha

end Chunked

namespace Disk

/-- An open file is read in chunks from where it was left, and then it is over. -/
theorem exists_pollAll_of_file {disk : Disk} {path : Path} {content : Bytes}
    (hchunk : 0 < disk.chunk) (hfile : disk.tree.find? path = some (.file content))
    (n offset : Nat) (hn : content.length - offset < n) :
    ∃ buffers, disk.pollAll n ⟨path, offset, false⟩ = buffers.map .ok ∧
      Chunked disk.chunk (content.drop offset) buffers := by
  induction n generalizing offset with
  | zero => cases hn
  | succ n ih =>
    simp only [pollAll, poll, hfile, Bool.false_eq_true, if_false]
    by_cases hover : content.drop offset = []
    · rw [hover, List.take_nil]
      exact ⟨[], rfl, .nil _⟩
    · have hpos := List.length_pos_iff.2 hover
      rw [List.length_drop] at hpos
      have hlen : ((content.drop offset).take disk.chunk).length ≠ 0 := by
        rw [List.length_take, List.length_drop]
        omega
      have hleft : content.drop (offset + ((content.drop offset).take disk.chunk).length) =
          (content.drop offset).drop disk.chunk := by
        rw [← List.drop_drop]
        exact (congrArg (List.drop _) (List.take_append_drop disk.chunk _).symm).trans
          List.drop_left
      obtain ⟨buffers, hrest, hchunked⟩ :=
        ih (offset + ((content.drop offset).take disk.chunk).length) (by omega)
      rw [hleft] at hchunked
      refine ⟨(content.drop offset).take disk.chunk :: buffers, ?_, hchunked.cons hchunk hover⟩
      cases htake : (content.drop offset).take disk.chunk with
      | nil => exact absurd (congrArg List.length htake) hlen
      | cons b piece =>
        rw [htake] at hrest
        exact congrArg _ hrest

/-- The file in the place of a resource is read in chunks, to its end. -/
theorem get_of_file {disk : Disk} {key : String} {content : Bytes} (hchunk : 0 < disk.chunk)
    (hfile : disk.tree.find? (disk.path key) = some (.file content)) :
    ∃ buffers, disk.get key = .ok (buffers.map .ok) ∧ Chunked disk.chunk content buffers := by
  have hcontains : disk.tree.contains (disk.path key) = true := by
    simp [FileTree.contains, hfile]
  obtain ⟨buffers, hread, hchunked⟩ :=
    exists_pollAll_of_file hchunk hfile (content.length + 1) 0 (Nat.lt_succ_self _)
  refine ⟨buffers, ?_, hchunked⟩
  simp only [get, openFile, hcontains, if_true, Except.map, rest, sizeAt, hfile]
  exact congrArg _ hread

end Disk

end Sidecar
