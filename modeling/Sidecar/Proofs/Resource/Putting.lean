import Sidecar.Proofs.Resource.Chunking
import Sidecar.Proofs.Resource.FileTree
import Sidecar.Proofs.Resource.Naming
import Sidecar.Resource.Spelling

/-!
# Putting resources

A put can break off in three places, and each leaves something behind: directories, or a temporary
file (`Disk.Puts`). What it leaves is on the way to its own resource or beside it, never in the
place of a resource (`Disk.Puts.reaches`), and what a key is answered depends on the place of its
resource and on the files on the way there (`Disk.answers_eq`). So a put is seen under its own key
alone, and a put that fails is not seen at all.

All this is so whatever else is done to the tree: `Disk.run` lets others create directories, write
files and remove them between the puts, or change the tree in any other way, also where resources
and temporary files have their places.
-/

namespace Sidecar

namespace Disk

/-! ## What else happens to a disk -/

/-- What can happen to a disk: a resource is put, or somebody creates a directory, writes a file or
removes one, by its text, or makes whatever else of the tree. -/
inductive Event where
  | put (key : String) (content : Bytes)
  | makeDirectory (text : String)
  | write (text : String) (content : Bytes)
  | remove (text : String)
  | change (tree : FileTree → FileTree)

/-- What an event makes of a disk. What cannot be written or removed stays as it is. -/
def apply (disk : Disk) : Event → Disk
  | .put key content => (disk.put key content).2
  | .makeDirectory text => { disk with tree := (disk.tree.createDirectory text).2 }
  | .write text content => { disk with tree := (disk.tree.writeFile? text content).getD disk.tree }
  | .remove text => { disk with tree := (disk.tree.removeFile? text).getD disk.tree }
  | .change tree => { disk with tree := tree disk.tree }

/-- The disk after some events. -/
def run (disk : Disk) (es : List Event) : Disk := es.foldl apply disk

/-! ## What a put comes to -/

/-- What a put comes to: the directory of the resource cannot be created, or the temporary file not
be written, or not be moved, or the resource is stored. -/
inductive Puts (disk : Disk) (key : String) (content : Bytes) :
    Except Cause Unit × Disk → Prop where
  | blocked {tree : FileTree}
      (hdirs : disk.tree.createDirs (disk.directory key) = (false, tree)) :
      Puts disk key content
        (.error (.ofText ("failed to create resource dir: " ++ (disk.directory key).render)),
          { disk with tree })
  | unwritten {tree : FileTree}
      (hdirs : disk.tree.createDirs (disk.directory key) = (true, tree))
      (hwrite : tree.write? (disk.temporaryPath key) content = none) :
      Puts disk key content
        (.error (.ofText ("failed to create temp file: " ++ (disk.temporaryPath key).render)),
          { disk with tree })
  | unmoved {tree : FileTree}
      (hdirs : disk.tree.createDirs (disk.directory key) = (true, tree))
      (hrename : (tree.place (disk.temporaryPath key) (.file content)).renameFile?
        (disk.temporaryPath key) (disk.path key) = none) :
      Puts disk key content
        (.error (.ofText ("failed to rename " ++ (disk.temporaryPath key).render ++ " to " ++
          (disk.path key).render)),
          { disk with tree := tree.place (disk.temporaryPath key) (.file content) })
  | stored {tree : FileTree}
      (hdirs : disk.tree.createDirs (disk.directory key) = (true, tree)) :
      Puts disk key content
        (.ok (), { disk with
          tree := ((tree.place (disk.temporaryPath key) (.file content)).erase
            (disk.temporaryPath key)).place (disk.path key) (.file content) })

/-- A put comes to one of these. -/
theorem puts_put (disk : Disk) (key : String) (content : Bytes) :
    disk.Puts key content (disk.put key content) := by
  unfold put
  simp only
  split
  next tree hdirs => exact .blocked hdirs
  next tree hdirs =>
    split
    next hwrite => exact .unwritten hdirs hwrite
    next written hwrite =>
      obtain ⟨-, rfl⟩ := FileTree.write?_eq_some hwrite
      split
      next hrename => exact .unmoved hdirs hrename
      next moved hrename =>
        obtain ⟨-, moving, hsource, rfl⟩ := FileTree.renameFile?_eq_some hrename
        rw [FileTree.find?_place_self (disk.isFixed_temporaryPath key)] at hsource
        obtain rfl : content = moving := by simpa using hsource
        exact .stored hdirs

namespace Puts

variable {disk after : Disk} {key : String} {content : Bytes} {outcome : Except Cause Unit}

theorem root (h : disk.Puts key content (outcome, after)) : after.root = disk.root := by
  cases h <;> rfl

theorem chunk (h : disk.Puts key content (outcome, after)) : after.chunk = disk.chunk := by
  cases h <;> rfl

/-- Apart from its two files, a put leaves what is there and adds directories on the way. If it
fails, the place of its resource is no exception. -/
theorem reaches (h : disk.Puts key content (outcome, after)) {q : Path}
    (htemporary : q ≠ disk.temporaryPath key) (hpath : q = disk.path key → outcome ≠ .ok ()) :
    disk.tree.Reaches after.tree (disk.directory key) q := by
  have hreaches := disk.tree.reaches_createDirs (disk.directory key) q
  cases h with
  | blocked hdirs | unwritten hdirs =>
    rw [hdirs] at hreaches
    exact hreaches
  | unmoved hdirs =>
    rw [hdirs] at hreaches
    simpa only [FileTree.Reaches, FileTree.find?_place_of_ne htemporary] using hreaches
  | stored hdirs =>
    rw [hdirs] at hreaches
    have hother : q ≠ disk.path key := fun heq => hpath heq rfl
    simpa only [FileTree.Reaches, FileTree.find?_place_of_ne hother,
      FileTree.find?_erase_of_ne htemporary, FileTree.find?_place_of_ne htemporary] using hreaches

/-- What is not as far down as the files are has at most become a directory. -/
theorem reaches_of_length_lt (h : disk.Puts key content (outcome, after)) {q : Path}
    (hq : q.length < disk.root.length + 2) :
    disk.tree.Reaches after.tree (disk.directory key) q := by
  refine h.reaches (fun heq => ?_) fun heq => ?_
  · rw [heq, length_temporaryPath] at hq
    omega
  · rw [heq, length_path] at hq
    omega

/-- In the places of files nothing has changed but in those of the put itself. -/
theorem find?_eq_of_length_eq (h : disk.Puts key content (outcome, after)) {q : Path}
    (hq : q.length = disk.root.length + 2) (htemporary : q ≠ disk.temporaryPath key)
    (hpath : q = disk.path key → outcome ≠ .ok ()) : after.tree.find? q = disk.tree.find? q := by
  refine (h.reaches htemporary hpath).find?_eq fun hway => ?_
  have := hway.length_le
  rw [length_directory] at this
  omega

/-- A resource that was stored is in its place. -/
theorem find?_path (h : disk.Puts key content (.ok (), after)) :
    after.tree.find? (disk.path key) = some (.file content) := by
  cases h with
  | stored hdirs => exact FileTree.find?_place_self (disk.isFixed_path key) _

/-- A resource that was stored leaves no temporary file. -/
theorem find?_temporaryPath (h : disk.Puts key content (.ok (), after)) :
    after.tree.find? (disk.temporaryPath key) = none := by
  cases h with
  | stored hdirs =>
    exact (FileTree.find?_place_of_ne (temporaryPath_ne_path key key) _).trans
      (FileTree.find?_erase_self (disk.isFixed_temporaryPath key))

end Puts

/-! ## What a key is answered -/

section
variable {disk after : Disk}

theorem directory_of_root_eq (hroot : after.root = disk.root) (key : String) :
    after.directory key = disk.directory key := by
  rw [directory, hroot, ← directory]

theorem path_of_root_eq (hroot : after.root = disk.root) (key : String) :
    after.path key = disk.path key := by
  rw [path, directory_of_root_eq hroot, ← path]

theorem temporaryPath_of_root_eq (hroot : after.root = disk.root) (key : String) :
    after.temporaryPath key = disk.temporaryPath key := by
  rw [temporaryPath, directory_of_root_eq hroot, ← temporaryPath]

/-- A poll depends on what is in the place of the resource. -/
theorem poll_congr (hchunk : after.chunk = disk.chunk) {handle : Handle}
    (hfind : after.tree.find? handle.path = disk.tree.find? handle.path) :
    after.poll handle = disk.poll handle := by
  simp only [poll, hfind, hchunk]

/-- A resource that is open stays the same resource. -/
theorem path_poll (disk : Disk) (handle : Handle) : (disk.poll handle).2.path = handle.path := by
  unfold poll
  split
  · rfl
  · split
    · split <;> rfl
    · rfl

/-- A resource that was opened is the one in the place of the key. -/
theorem path_of_openFile {key : String} {handle : Handle} (h : disk.openFile key = .ok handle) :
    handle.path = disk.path key := by
  simp only [openFile] at h
  split at h
  · cases h
    rfl
  · split at h <;> cases h

theorem pollAll_congr (hchunk : after.chunk = disk.chunk) (n : Nat) {handle : Handle}
    (hfind : after.tree.find? handle.path = disk.tree.find? handle.path) :
    after.pollAll n handle = disk.pollAll n handle := by
  induction n generalizing handle with
  | zero => rfl
  | succ n ih =>
    have hpath := disk.path_poll handle
    rw [pollAll, pollAll, poll_congr hchunk hfind]
    cases hpoll : disk.poll handle with
    | mk answer handle' =>
      rw [hpoll] at hpath
      cases answer with
      | none => rfl
      | some read => exact congrArg (read :: ·) (ih (by rw [hpath, hfind]))

/-- What a key is answered depends on what is in the place of its resource and on the files on the
way there. -/
theorem answers_eq (hroot : after.root = disk.root) (hchunk : after.chunk = disk.chunk)
    {key : String} (hfind : after.tree.find? (disk.path key) = disk.tree.find? (disk.path key))
    (hfiles : ∀ q content, q <+: disk.path key → q ≠ disk.path key →
      (after.tree.find? q = some (.file content) ↔ disk.tree.find? q = some (.file content))) :
    after.has key = disk.has key ∧ ∀ grant, after.getBy grant key = disk.getBy grant key := by
  have hpath := path_of_root_eq hroot key
  have hcontains : after.tree.contains (disk.path key) = disk.tree.contains (disk.path key) := by
    simp only [FileTree.contains, hfind]
  have hblocked : after.tree.isBlocked (disk.path key) = disk.tree.isBlocked (disk.path key) := by
    rw [Bool.eq_iff_iff, FileTree.isBlocked_iff, FileTree.isBlocked_iff]
    refine exists_congr fun q => exists_congr fun content => and_congr_right fun hq =>
      and_congr_right fun hne => hfiles q content hq hne
  refine ⟨by simp only [has, hpath, hcontains], fun grant => ?_⟩
  have hopen : after.openFile key = disk.openFile key := by
    simp only [openFile, hpath, hcontains, hblocked]
  rw [getBy_eq, getBy_eq, get, get, hopen]
  cases hopened : disk.openFile key with
  | error e => rfl
  | ok handle =>
    have hplace : handle.path = disk.path key := path_of_openFile hopened
    have hread : after.pollAll (disk.sizeAt handle.path + 1) handle =
        disk.pollAll (disk.sizeAt handle.path + 1) handle :=
      pollAll_congr hchunk _ (by rw [hplace, hfind])
    simpa [Except.map, rest, sizeAt, hplace, hfind] using hread

end

/-- What a put leaves behind changes no answer of a key whose resource it did not touch. -/
theorem Puts.answers_eq {disk after : Disk} {key other : String} {content : Bytes}
    {outcome : Except Cause Unit} (h : disk.Puts key content (outcome, after))
    (hother : disk.path other = disk.path key → outcome ≠ .ok ()) :
    after.has other = disk.has other ∧
      ∀ grant, after.getBy grant other = disk.getBy grant other := by
  refine Disk.answers_eq h.root h.chunk ?_ fun q _ hq hne => ?_
  · exact h.find?_eq_of_length_eq (disk.length_path other) (temporaryPath_ne_path key other).symm
      hother
  · refine (h.reaches_of_length_lt ?_).find?_eq_file_iff _
    rw [← disk.length_path other]
    exact Nat.lt_of_le_of_ne hq.length_le fun hlen => hne (hq.eq_of_length hlen)

/-! ## Disks in use -/

theorem chunk_apply (disk : Disk) (e : Event) : (disk.apply e).chunk = disk.chunk := by
  cases e with
  | put key content => exact (disk.puts_put key content).chunk
  | makeDirectory | write | remove | change => rfl

theorem chunk_run (disk : Disk) (es : List Event) : (disk.run es).chunk = disk.chunk := by
  induction es generalizing disk with
  | nil => rfl
  | cons e es ih => exact (ih (disk.apply e)).trans (disk.chunk_apply e)

/-- A directory of resources that was opened is read in chunks of at least one byte. -/
theorem chunk_of_create {tree : FileTree} {root : Path} {chunk : Nat} {disk : Disk}
    (h : Disk.create tree root chunk = .ok disk) : disk.chunk = max chunk 1 := by
  unfold create at h
  split at h
  · cases h
    rfl
  · cases h

/-- **A put touches its own key, and a put that fails touches none.** On a disk that was opened in
any tree, and after any puts and whatever others did to the tree, a put leaves all other keys as
they were. If it fails it leaves its own key, too; if it does not, its key has what was put. -/
theorem put_touches_own_key (tree : FileTree) (root : Path) (chunk : Nat) (disk : Disk)
    (hcreate : Disk.create tree root chunk = .ok disk) (es : List Event) (keys : List String)
    (hapart : HashesApart keys) (key : String) (hkey : key ∈ keys) (content : Bytes) :
    let before := disk.run es
    let outcome := (before.put key content).1
    let after := (before.put key content).2
    (∀ other ∈ keys, other ≠ key → after.has other = before.has other ∧
      ∀ grant, after.getBy grant other = before.getBy grant other) ∧
    (outcome ≠ .ok () → after.has key = before.has key ∧
      ∀ grant, after.getBy grant key = before.getBy grant key) ∧
    (outcome = .ok () → after.has key = true ∧
      ∃ buffers, Chunked (max chunk 1) content buffers ∧
        ∀ grant, after.getBy grant key = .ok (buffers.map .ok)) := by
  intro before outcome after
  have hputs : before.Puts key content (outcome, after) := before.puts_put key content
  refine ⟨fun other hother hne => hputs.answers_eq fun hpath => ?_, fun hfails =>
    hputs.answers_eq fun _ => hfails, fun hstored => ?_⟩
  · exact absurd (path_inj hapart hother hkey hpath) hne
  · rw [hstored] at hputs
    have hchunk : after.chunk = max chunk 1 := by
      rw [hputs.chunk, chunk_run, chunk_of_create hcreate]
    have hfile : after.tree.find? (after.path key) = some (.file content) := by
      rw [path_of_root_eq hputs.root]
      exact hputs.find?_path
    obtain ⟨buffers, hget, hchunked⟩ := get_of_file (by omega) hfile
    refine ⟨by simp [has, FileTree.contains, hfile], buffers, hchunk ▸ hchunked, fun grant => ?_⟩
    rw [getBy_eq, hget]

/-- A directory in the place of a resource makes its put fail, and nothing else is seen of that. -/
theorem put_touches_own_key_obstructed :
    let tree := (FileTree.empty.createDirs (path ⟨["store"], 2, .empty⟩ "b")).2
    let disk : Disk := ⟨["store"], 2, tree⟩
    let before := disk.run [.put "a" [1, 2, 3]]
    let after := (before.put "b" [9]).2
    Disk.create tree ["store"] 2 = .ok disk ∧ HashesApart ["a", "b"] ∧
      (before.put "b" [9]).1 ≠ .ok () ∧ after.has "b" = before.has "b" ∧
      after.getBy (fun _ => 1) "a" = before.getBy (fun _ => 1) "a" := by
  intro tree disk before after
  have hcreate : Disk.create tree ["store"] 2 = .ok disk := by
    have hopened : (Disk.create tree ["store"] 2).toOption = some disk := by decide +kernel
    cases hresult : Disk.create tree ["store"] 2 with
    | error cause => rw [hresult] at hopened; cases hopened
    | ok opened => rw [hresult] at hopened; rw [Option.some.inj hopened]
  have hapart : HashesApart ["a", "b"] := by decide +kernel
  have hfails : (before.put "b" [9]).1 ≠ .ok () := by
    have hnone : (before.put "b" [9]).1.toOption = none := by decide +kernel
    intro hok
    rw [hok] at hnone
    cases hnone
  obtain ⟨hothers, hown, -⟩ := put_touches_own_key tree ["store"] 2 disk hcreate
    [.put "a" [1, 2, 3]] ["a", "b"] hapart "b" (by simp) [9]
  exact ⟨hcreate, hapart, hfails, (hown hfails).1, (hothers "a" (by simp) (by decide)).2 _⟩

end Disk

end Sidecar
