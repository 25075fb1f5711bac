import Sidecar.Dict
import Sidecar.Resource.FileTree

/-!
# What is at a path

Each operation on a tree of files is told by what it leaves at each path. Placing and erasing are
seen at their own path alone. Creating directories leaves everything that is there and adds nothing
but directories, and those only on the way to the one that was asked for
(`FileTree.reaches_createDirs`); it succeeds where no file is in the way
(`FileTree.createDirs_iff`).
-/

namespace Sidecar

namespace FileTree

variable {tree : FileTree} {path q : Path}

/-! ## Placing and erasing -/

theorem find?_of_isFixed (h : q.isFixed = true) : tree.find? q = some .directory := by
  simp [find?, h]

theorem not_isFixed_of_find?_ne (tree : FileTree) (h : tree.find? q ≠ some .directory) :
    q.isFixed = false :=
  Bool.eq_false_iff.2 fun hfixed => h (find?_of_isFixed hfixed)

theorem lookup_filter_ne (nodes : List (Path × FileNode)) (q path : Path) :
    (nodes.filter fun e => e.1 ≠ path).lookup q = if q = path then none else nodes.lookup q := by
  induction nodes with
  | nil => simp
  | cons e nodes ih =>
    by_cases hp : e.1 = path
    · rw [List.filter_cons_of_neg (by simpa using hp), ih, Dict.lookup_cons_eq_ite, hp]
      split <;> rfl
    · rw [List.filter_cons_of_pos (by simpa using hp), Dict.lookup_cons_eq_ite,
        Dict.lookup_cons_eq_ite, ih]
      by_cases hq : q = e.1
      · simp [hq, hp]
      · simp [hq]

theorem find?_place_self (h : path.isFixed = false) (node : FileNode) :
    (tree.place path node).find? path = some node := by
  simp [find?, h, place]

theorem find?_place_of_ne (h : q ≠ path) (node : FileNode) :
    (tree.place path node).find? q = tree.find? q := by
  unfold find? place
  rw [Dict.lookup_cons_eq_ite, if_neg h, lookup_filter_ne, if_neg h]

theorem find?_erase_self (h : path.isFixed = false) : (tree.erase path).find? path = none := by
  unfold find? erase
  rw [h, lookup_filter_ne, if_pos rfl]
  rfl

theorem find?_erase_of_ne (h : q ≠ path) : (tree.erase path).find? q = tree.find? q := by
  unfold find? erase
  rw [lookup_filter_ne, if_neg h]

/-! ## Creating directories -/

/-- What was at a path is still there, or there was nothing and now there is a directory on the way
to `target`. -/
def Reaches (tree tree' : FileTree) (target q : Path) : Prop :=
  tree'.find? q = tree.find? q ∨
    tree.find? q = none ∧ tree'.find? q = some .directory ∧ q <+: target

theorem Reaches.refl (tree : FileTree) (target q : Path) : tree.Reaches tree target q := .inl rfl

/-- A file is where it was, and there are no others. -/
theorem Reaches.find?_eq_file_iff {tree' : FileTree} {target : Path}
    (h : tree.Reaches tree' target q) (content : Bytes) :
    tree'.find? q = some (.file content) ↔ tree.find? q = some (.file content) := by
  rcases h with h | ⟨hnone, hdir, -⟩
  · rw [h]
  · simp [hnone, hdir]

/-- What is not on the way is as it was. -/
theorem Reaches.find?_eq {tree' : FileTree} {target : Path} (h : tree.Reaches tree' target q)
    (hway : ¬ q <+: target) : tree'.find? q = tree.find? q :=
  h.resolve_right fun hnew => hway hnew.2.2

theorem reaches_go (done rest : Path) (q : Path) :
    tree.Reaches (createDirs.go tree done rest).2 (done ++ rest) q := by
  induction rest generalizing tree done with
  | nil => exact .refl ..
  | cons name rest ih =>
    have hway : done ++ name :: rest = done ++ [name] ++ rest := by simp
    rw [createDirs.go, hway]
    cases hfind : tree.find? (done ++ [name]) with
    | some node =>
      cases node with
      | directory => exact ih (done ++ [name])
      | file content => exact .refl ..
    | none =>
      have hrest := @ih (tree.place (done ++ [name]) .directory) (done ++ [name])
      by_cases hq : q = done ++ [name]
      · subst hq
        have hfixed := not_isFixed_of_find?_ne tree (by rw [hfind]; nofun)
        refine .inr ⟨hfind, ?_, List.prefix_append _ _⟩
        rcases hrest with hsame | ⟨hnone, -⟩
        · exact hsame.trans (find?_place_self hfixed _)
        · rw [find?_place_self hfixed] at hnone
          cases hnone
      · rw [Reaches, find?_place_of_ne hq] at hrest
        exact hrest

/-- Creating directories leaves what is there and adds directories on the way. -/
theorem reaches_createDirs (tree : FileTree) (path q : Path) :
    tree.Reaches (tree.createDirs path).2 path q := by
  have := tree.reaches_go [] path q
  rwa [List.nil_append] at this

/-- Once the directories are created they are there. -/
theorem isDirectory_go {done rest : Path} (hdone : tree.isDirectory done = true)
    (h : (createDirs.go tree done rest).1 = true) :
    (createDirs.go tree done rest).2.isDirectory (done ++ rest) = true := by
  induction rest generalizing tree done with
  | nil => simpa [createDirs.go] using hdone
  | cons name rest ih =>
    have hway : done ++ name :: rest = done ++ [name] ++ rest := by simp
    rw [createDirs.go] at h ⊢
    rw [hway]
    cases hfind : tree.find? (done ++ [name]) with
    | some node =>
      cases node with
      | directory =>
        simp only [hfind] at h ⊢
        exact ih (by simp [isDirectory, hfind]) h
      | file content => simp [hfind] at h
    | none =>
      simp only [hfind] at h ⊢
      have hfixed := not_isFixed_of_find?_ne tree (by rw [hfind]; nofun)
      exact ih (by simp [isDirectory, find?_place_self hfixed]) h

theorem isDirectory_createDirs (h : (tree.createDirs path).1 = true) :
    (tree.createDirs path).2.isDirectory path = true := by
  have hstart : tree.isDirectory [] = true := by simp [isDirectory, find?, Path.isFixed]
  have hgo : (createDirs.go tree [] path).2.isDirectory ([] ++ path) = true :=
    isDirectory_go hstart h
  rwa [List.nil_append] at hgo

/-- A directory in a free place is not a file. -/
theorem find?_place_directory_eq_file_iff (hfree : tree.find? path = none) (content : Bytes) :
    (tree.place path .directory).find? q = some (.file content) ↔
      tree.find? q = some (.file content) := by
  by_cases hq : q = path
  · have hfixed := not_isFixed_of_find?_ne tree (by rw [hfree]; nofun)
    rw [hq, find?_place_self hfixed, hfree]
    simp
  · rw [find?_place_of_ne hq]

theorem go_iff {done rest : Path} (hdone : ∀ content, tree.find? done ≠ some (.file content)) :
    (createDirs.go tree done rest).1 = true ↔
      ∀ n content, tree.find? (done ++ rest.take n) ≠ some (.file content) := by
  induction rest generalizing tree done with
  | nil => simpa [createDirs.go] using hdone
  | cons name rest ih =>
    -- Before the next directory there is only the one that is there already.
    have hway : (∀ n content, tree.find? (done ++ (name :: rest).take n) ≠ some (.file content)) ↔
        ∀ n content, tree.find? (done ++ [name] ++ rest.take n) ≠ some (.file content) := by
      constructor
      · intro h n
        simpa using h (n + 1)
      · intro h n
        cases n with
        | zero => simpa using hdone
        | succ n => simpa using h n
    rw [hway, createDirs.go]
    cases hfind : tree.find? (done ++ [name]) with
    | some node =>
      cases node with
      | directory => exact ih (by rw [hfind]; nofun)
      | file content =>
        refine iff_of_false nofun fun h => ?_
        exact h 0 content (by simpa using hfind)
    | none =>
      have hplaced : ∀ content,
          (tree.place (done ++ [name]) .directory).find? (done ++ [name]) ≠
            some (.file content) := by
        intro content h
        rw [find?_place_directory_eq_file_iff hfind, hfind] at h
        cases h
      refine (ih hplaced).trans ?_
      simp only [ne_eq, find?_place_directory_eq_file_iff hfind]

/-- Directories can be created where no file is in the way, and nowhere else. -/
theorem createDirs_iff :
    (tree.createDirs path).1 = true ↔
      ∀ q, q <+: path → ∀ content, tree.find? q ≠ some (.file content) := by
  have hstart : ∀ content, tree.find? [] ≠ some (.file content) := nofun
  refine (go_iff hstart).trans ⟨fun h q hq => ?_, fun h n => ?_⟩
  · rw [List.prefix_iff_eq_take.1 hq]
    exact h q.length
  · have hway := List.take_prefix n path
    exact h _ hway

/-! ## Files -/

/-- What is written is put in its place, which no directory had taken. -/
theorem write?_eq_some {content : Bytes} {tree' : FileTree}
    (h : tree.write? path content = some tree') :
    path.isFixed = false ∧ tree' = tree.place path (.file content) := by
  unfold write? at h
  split at h
  · cases h
  next hfree =>
    have hdir : tree.find? path ≠ some .directory := fun hdir =>
      hfree (.inl (by simpa [isDirectory] using hdir))
    exact ⟨not_isFixed_of_find?_ne tree hdir, (Option.some.inj h).symm⟩

/-- A file can be written into a directory that is there, unless a directory has its place. -/
theorem write?_of_free (content : Bytes) (hpath : tree.find? path ≠ some .directory)
    (hparent : tree.isDirectory path.dropLast = true) :
    tree.write? path content = some (tree.place path (.file content)) := by
  simp [write?, isDirectory, hpath, show tree.find? path.dropLast = some .directory by
    simpa [isDirectory] using hparent]

/-- A file that is moved leaves its place and takes the other one, which no directory had taken. -/
theorem renameFile?_eq_some {source target : Path} {tree' : FileTree}
    (h : tree.renameFile? source target = some tree') :
    target.isFixed = false ∧ ∃ content, tree.find? source = some (.file content) ∧
      tree' = (tree.erase source).place target (.file content) := by
  unfold renameFile? at h
  split at h
  next content hsource =>
    split at h
    · cases h
    next hfree =>
      have hdir : tree.find? target ≠ some .directory := fun hdir =>
        hfree (.inl (by simpa [isDirectory] using hdir))
      exact ⟨not_isFixed_of_find?_ne tree hdir, content, hsource, (Option.some.inj h).symm⟩
  next => cases h

/-- A file can be moved into a directory that is there, unless a directory has its new place. -/
theorem renameFile?_of_free {source target : Path} {content : Bytes}
    (hsource : tree.find? source = some (.file content))
    (htarget : tree.find? target ≠ some .directory)
    (hparent : tree.isDirectory target.dropLast = true) :
    tree.renameFile? source target =
      some ((tree.erase source).place target (.file content)) := by
  simp [renameFile?, isDirectory, hsource, htarget,
    show tree.find? target.dropLast = some .directory by simpa [isDirectory] using hparent]

/-! ## Paths that are blocked -/

/-- A path is blocked by the files on the way to it, and by nothing else. -/
theorem isBlocked_iff :
    tree.isBlocked path = true ↔
      ∃ q content, q <+: path ∧ q ≠ path ∧ tree.find? q = some (.file content) := by
  unfold isBlocked
  rw [List.any_eq_true]
  constructor
  · rintro ⟨n, hn, hfile⟩
    rw [List.mem_range] at hn
    split at hfile
    next content hfind =>
      have hway := List.take_prefix n path
      refine ⟨path.take n, content, hway, fun heq => ?_, hfind⟩
      have := congrArg List.length heq
      rw [List.length_take] at this
      omega
    next => cases hfile
  · rintro ⟨q, content, hq, hne, hfind⟩
    have htake := List.prefix_iff_eq_take.1 hq
    refine ⟨q.length, ?_, ?_⟩
    · rw [List.mem_range]
      exact Nat.lt_of_le_of_ne hq.length_le fun hlen => hne (hq.eq_of_length hlen)
    · rw [← htake, hfind]

end FileTree

end Sidecar
