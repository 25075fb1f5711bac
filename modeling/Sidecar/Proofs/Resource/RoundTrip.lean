import Mathlib.Data.List.Induction
import Sidecar.Proofs.Resource.Putting

/-!
# What was put is found

Where nothing is below its directory to begin with, a store of resources is what its puts make it
(`Disk.Holds`): the places of the resources hold what was put there last, and nothing ever stands in
the way of the next put. So every put succeeds, and every key is answered with what was last put
under it (`Disk.get_last_put`).
-/

namespace Sidecar

namespace Disk

/-! ## A put that succeeds -/

/-- A put succeeds where no file is on the way and no directory in the place of its two files. -/
theorem put_of_free {disk : Disk} {key : String} (content : Bytes)
    (hway : ∀ q, q <+: disk.directory key → ∀ content, disk.tree.find? q ≠ some (.file content))
    (htemporary : disk.tree.find? (disk.temporaryPath key) ≠ some .directory)
    (hpath : disk.tree.find? (disk.path key) ≠ some .directory) :
    (disk.put key content).1 = .ok () := by
  have hcreated := FileTree.createDirs_iff.2 hway
  have hthere := FileTree.isDirectory_createDirs hcreated
  -- Neither file is on the way to the directory, so nothing has come into its place.
  have hfile : ∀ q : Path, q.length = disk.root.length + 2 →
      (disk.tree.createDirs (disk.directory key)).2.find? q = disk.tree.find? q := by
    intro q hlength
    refine (disk.tree.reaches_createDirs (disk.directory key) q).find?_eq fun hq => ?_
    have := hq.length_le
    rw [length_directory] at this
    omega
  have hputs := disk.puts_put key content
  generalize disk.put key content = result at hputs ⊢
  cases hputs with
  | blocked hdirs =>
    rw [hdirs] at hcreated
    cases hcreated
  | unwritten hdirs hwrite =>
    rw [hdirs] at hfile hthere
    rw [FileTree.write?_of_free] at hwrite
    · cases hwrite
    · rw [hfile _ (disk.length_temporaryPath key)]
      exact htemporary
    · rw [dropLast_temporaryPath]
      exact hthere
  | unmoved hdirs hrename =>
    rw [hdirs] at hfile hthere
    have hdirectory : disk.directory key ≠ disk.temporaryPath key := by
      intro heq
      have := congrArg List.length heq
      rw [length_directory, length_temporaryPath] at this
      omega
    rw [FileTree.renameFile?_of_free (FileTree.find?_place_self (disk.isFixed_temporaryPath key) _)]
      at hrename
    · cases hrename
    · rw [FileTree.find?_place_of_ne (temporaryPath_ne_path key key).symm,
        hfile _ (disk.length_path key)]
      exact hpath
    · rw [dropLast_path, FileTree.isDirectory, FileTree.find?_place_of_ne hdirectory]
      exact hthere
  | stored => rfl

/-! ## The store that puts make -/

/-- The disk is what some puts have made of a directory with nothing below it: no file is on the way
to the places of the keys, no directory has the place of a file, and each resource is the one put
last. -/
structure Holds (disk : Disk) (keys : List String) (puts : List (String × Bytes)) : Prop where
  root : ∀ q, q <+: disk.root → ∀ content, disk.tree.find? q ≠ some (.file content)
  shelves : ∀ key ∈ keys, ∀ content, disk.tree.find? (disk.directory key) ≠ some (.file content)
  temporary : ∀ key ∈ keys, disk.tree.find? (disk.temporaryPath key) ≠ some .directory
  resources : ∀ key ∈ keys, disk.tree.find? (disk.path key) = (puts.reverse.lookup key).map .file

/-- Where nothing is listed below a path, nothing is found there. -/
theorem lookup_of_listing_eq_nil {tree : FileTree} {root q : Path} (h : tree.listing root = [])
    (hbelow : root <+: q) (hne : q ≠ root) : tree.nodes.lookup q = none := by
  have hnone : (tree.nodes.filter fun e => root.isPrefixOf e.1 && e.1 ≠ root) = [] := by
    have hlength := congrArg List.length h
    simp only [FileTree.listing, List.length_mergeSort, List.length_map, List.length_nil] at hlength
    exact List.eq_nil_of_length_eq_zero hlength
  rw [List.lookup_eq_none_iff]
  intro e he
  have := List.filter_eq_nil_iff.1 hnone e he
  rw [bne_iff_ne]
  rintro rfl
  exact this (by simpa [hne] using hbelow)

theorem lookup_reverse_isSome_iff {puts : List (String × Bytes)} {key : String} :
    (puts.reverse.lookup key).isSome = true ↔ key ∈ puts.map Prod.fst := by
  rw [List.lookup_isSome_iff]
  simp

namespace Holds

variable {disk : Disk} {keys : List String} {puts : List (String × Bytes)}

/-- A directory with nothing below it holds nothing. -/
theorem start {tree : FileTree} {root : Path} {chunk : Nat} (hfresh : tree.listing root = [])
    (hcreate : Disk.create tree root chunk = .ok disk) (keys : List String) :
    disk.Holds keys [] := by
  unfold create at hcreate
  split at hcreate
  next created hdirs =>
    cases hcreate
    have hreaches := tree.reaches_createDirs root
    have hfree := FileTree.createDirs_iff.1 (congrArg Prod.fst hdirs)
    rw [hdirs] at hreaches
    let opened : Disk := ⟨root, max chunk 1, created⟩
    -- What is below the directory is not on the way to it, and nothing was there.
    have hbelow : ∀ q : Path, root <+: q → opened.root.length < q.length → q.isFixed = false →
        created.find? q = none := by
      intro q hq hlength hfixed
      have hway : ¬ q <+: root := fun hpre => Nat.not_le_of_lt hlength hpre.length_le
      rw [(hreaches q).find?_eq hway, FileTree.find?, hfixed]
      refine lookup_of_listing_eq_nil hfresh hq fun heq => ?_
      rw [heq] at hlength
      exact Nat.lt_irrefl _ hlength
    have hdirectory : ∀ key, root <+: opened.directory key := fun key => List.prefix_append _ _
    refine ⟨fun q hq content hfile => ?_, fun key _ content hfile => ?_, fun key _ => ?_,
      fun key _ => ?_⟩
    · exact hfree q hq content (((hreaches q).find?_eq_file_iff content).1 hfile)
    · have hfixed := FileTree.not_isFixed_of_find?_ne created
        (q := opened.directory key) (by rw [hfile]; simp)
      have hnone := hbelow _ (hdirectory key) (by rw [length_directory]; omega) hfixed
      exact absurd (hnone.symm.trans hfile) (by simp)
    · have hnone := hbelow (opened.temporaryPath key)
        ((hdirectory key).trans (List.prefix_append _ _))
        (by rw [length_temporaryPath]; omega) (opened.isFixed_temporaryPath key)
      exact fun hdir => absurd (hnone.symm.trans hdir) (by simp)
    · exact hbelow (opened.path key) ((hdirectory key).trans (List.prefix_append _ _))
        (by rw [length_path]; omega) (opened.isFixed_path key)
  next => cases hcreate

/-- The way to the directory of a resource is free, and so are the places of its two files. So a put
succeeds. -/
theorem put_eq_ok (h : disk.Holds keys puts) {key : String} (hkey : key ∈ keys) (content : Bytes) :
    (disk.put key content).1 = .ok () := by
  refine put_of_free content (fun q hq => ?_) (h.temporary key hkey) ?_
  · rcases List.prefix_concat_iff.1 hq with rfl | hq
    · exact h.shelves key hkey
    · exact h.root q hq
  · rw [h.resources key hkey]
    cases puts.reverse.lookup key <;> nofun

/-- A store holds what was put last. -/
theorem put (h : disk.Holds keys puts) (hapart : HashesApart keys) {key : String}
    (hkey : key ∈ keys) (content : Bytes) :
    (disk.put key content).2.Holds keys (puts ++ [(key, content)]) := by
  have hputs : disk.Puts key content (.ok (), (disk.put key content).2) :=
    h.put_eq_ok hkey content ▸ disk.puts_put key content
  generalize (disk.put key content).2 = after at hputs
  have hroot := hputs.root
  refine ⟨fun q hq content hfile => ?_, fun other hother content hfile => ?_,
    fun other hother => ?_, fun other hother => ?_⟩
  · rw [hroot] at hq
    have := hq.length_le
    have hreaches := hputs.reaches_of_length_lt (q := q) (by omega)
    exact h.root q hq content ((hreaches.find?_eq_file_iff content).1 hfile)
  · rw [directory_of_root_eq hroot] at hfile
    have hlength := disk.length_directory other
    have hreaches := hputs.reaches_of_length_lt (q := disk.directory other) (by omega)
    exact h.shelves other hother content ((hreaches.find?_eq_file_iff content).1 hfile)
  · rw [temporaryPath_of_root_eq hroot]
    by_cases hsame : disk.temporaryPath other = disk.temporaryPath key
    · rw [hsame, hputs.find?_temporaryPath]
      nofun
    · rw [hputs.find?_eq_of_length_eq (disk.length_temporaryPath other) hsame fun heq =>
        absurd heq (temporaryPath_ne_path other key)]
      exact h.temporary other hother
  · rw [path_of_root_eq hroot, List.reverse_append, List.reverse_singleton, List.singleton_append,
      Dict.lookup_cons_eq_ite]
    by_cases hsame : other = key
    · rw [if_pos hsame, hsame, hputs.find?_path]
      rfl
    · rw [if_neg hsame, hputs.find?_eq_of_length_eq (disk.length_path other)
        (temporaryPath_ne_path key other).symm fun heq =>
          absurd (path_inj hapart hother hkey heq) hsame]
      exact h.resources other hother

/-- A store that some puts have made of one with nothing in it holds what was put last. -/
theorem run {disk : Disk} (h : disk.Holds keys []) (hapart : HashesApart keys)
    (puts : List (String × Bytes)) (hkeys : ∀ e ∈ puts, e.1 ∈ keys) :
    (disk.run (puts.map fun e => .put e.1 e.2)).Holds keys puts := by
  induction puts using List.reverseRecOn with
  | nil => exact h
  | append_singleton puts e ih =>
    have hbefore := ih fun e he => hkeys e (List.mem_append_left _ he)
    rw [List.map_append, Disk.run, List.foldl_append]
    exact hbefore.put hapart (hkeys e (by simp)) e.2

/-- A key that nothing was put under is not found. -/
theorem get_of_lookup_eq_none (h : disk.Holds keys puts) {key : String} (hkey : key ∈ keys)
    (hnone : puts.reverse.lookup key = none) : disk.get key = .error (.notFound key) := by
  have hmissing : disk.tree.contains (disk.path key) = false := by
    rw [FileTree.contains, h.resources key hkey, hnone]
    rfl
  have hfree : disk.tree.isBlocked (disk.path key) = false := by
    rw [Bool.eq_false_iff, ne_eq, FileTree.isBlocked_iff]
    rintro ⟨q, content, hq, hne, hfile⟩
    have hq := (List.prefix_concat_iff.1 hq).resolve_left hne
    rcases List.prefix_concat_iff.1 hq with rfl | hq
    · exact h.shelves key hkey content hfile
    · exact h.root q hq content hfile
  rw [get, openFile, hmissing, hfree]
  rfl

end Holds

/-- **What was put is found.** In a store that was opened on a directory with nothing below it every
put succeeds, and a key is answered with what was last put under it, in chunks of the size that was
asked for, or of one byte if that is zero. A key that nothing was put under is not found. -/
theorem get_last_put (tree : FileTree) (root : Path) (chunk : Nat) (disk : Disk)
    (hfresh : tree.listing root = []) (hcreate : Disk.create tree root chunk = .ok disk)
    (puts : List (String × Bytes)) (keys : List String) (hapart : HashesApart keys)
    (hkeys : ∀ e ∈ puts, e.1 ∈ keys) :
    let stored := fun done : List (String × Bytes) => disk.run (done.map fun e => .put e.1 e.2)
    (∀ done e, done ++ [e] <+: puts → ((stored done).put e.1 e.2).1 = .ok ()) ∧
    ∀ key ∈ keys,
      ((stored puts).has key = true ↔ key ∈ puts.map Prod.fst) ∧
      (key ∉ puts.map Prod.fst →
        ∀ grant, (stored puts).getBy grant key = .error (.notFound key)) ∧
      ∀ content, puts.reverse.lookup key = some content →
        ∃ buffers, Chunked (max chunk 1) content buffers ∧ (content = [] → buffers = []) ∧
          ∀ grant, (stored puts).getBy grant key = .ok (buffers.map .ok) := by
  intro stored
  have hstart := Holds.start hfresh hcreate keys
  have hchunk : (stored puts).chunk = max chunk 1 := by
    rw [chunk_run, chunk_of_create hcreate]
  have hholds : (stored puts).Holds keys puts := hstart.run hapart puts hkeys
  refine ⟨fun done e hdone => ?_,
    fun key hkey => ⟨?_, fun hnever grant => ?_, fun content hlast => ?_⟩⟩
  · have hkeys : ∀ e' ∈ done ++ [e], e'.1 ∈ keys := fun e' he => hkeys e' (hdone.subset he)
    have hbefore := hstart.run hapart done fun e' he => hkeys e' (List.mem_append_left _ he)
    exact hbefore.put_eq_ok (hkeys e (by simp)) e.2
  · rw [has, FileTree.contains, hholds.resources key hkey, Option.isSome_map,
      lookup_reverse_isSome_iff]
  · rw [getBy_eq]
    refine hholds.get_of_lookup_eq_none hkey (Option.not_isSome_iff_eq_none.1 fun hsome => ?_)
    exact hnever (lookup_reverse_isSome_iff.1 hsome)
  · have hfile := hholds.resources key hkey
    rw [hlast] at hfile
    obtain ⟨buffers, hget, hchunked⟩ := get_of_file (by omega) hfile
    rw [hchunk] at hchunked
    exact ⟨buffers, hchunked, fun hnil => Chunked.eq_nil (hnil ▸ hchunked), fun grant => by
      rw [getBy_eq, hget]⟩

/-- A resource that is put again is read as it was put last, and an empty one has no buffer. -/
theorem get_last_put_replaced :
    let disk : Disk := ⟨["store"], 1, (FileTree.empty.createDirs ["store"]).2⟩
    let after := disk.run [.put "a" [1, 2, 3], .put "b" [], .put "a" [4, 5]]
    FileTree.empty.listing ["store"] = [] ∧ Disk.create .empty ["store"] 0 = .ok disk ∧
      HashesApart ["a", "b"] ∧ after.has "b" = true ∧
      (∃ buffers, Chunked 1 [4, 5] buffers ∧
        ∀ grant, after.getBy grant "a" = .ok (buffers.map .ok)) ∧
      ∀ grant, after.getBy grant "b" = .ok [] := by
  intro disk after
  have hfresh : FileTree.empty.listing ["store"] = [] := by simp [FileTree.listing, FileTree.empty]
  have hcreate : Disk.create .empty ["store"] 0 = .ok disk := by rfl
  have hapart : HashesApart ["a", "b"] := by decide +kernel
  obtain ⟨-, hanswers⟩ := get_last_put .empty ["store"] 0 disk hfresh hcreate
    [("a", [1, 2, 3]), ("b", []), ("a", [4, 5])] ["a", "b"] hapart (by simp)
  obtain ⟨-, -, hread⟩ := hanswers "a" (by simp)
  obtain ⟨hhas, -, hempty⟩ := hanswers "b" (by simp)
  obtain ⟨buffers, hchunked, -, hget⟩ := hread [4, 5] (by decide)
  obtain ⟨_, -, hnil, hgetb⟩ := hempty [] (by decide)
  refine ⟨hfresh, hcreate, hapart, hhas.2 (by simp), ⟨buffers, hchunked, hget⟩, fun grant => ?_⟩
  exact (hgetb grant).trans (by rw [hnil rfl]; rfl)

end Disk

end Sidecar
