import Sidecar.Resource.Disk

/-!
# Where resources are

Keys whose hashes differ have their resources at different paths (`Disk.path_inj`), and a path that
is written to before a resource is renamed is the path of no resource
(`Disk.temporaryPath_ne_path`). Neither is a path that is always taken, nor does it lead to a
resource.
-/

namespace Sidecar

/-! ## Hexadecimal names -/

theorem hexDigit_inj : ∀ a < 16, ∀ b < 16, hexDigit a = hexDigit b → a = b := by decide

theorem hexDigit_ne_dot : ∀ d < 16, hexDigit d ≠ '.' := by decide

/-- A byte can be read off its two digits. -/
theorem byte_eq_of_hexDigit_eq {a b : UInt8}
    (hhigh : hexDigit (a.toNat / 16) = hexDigit (b.toNat / 16))
    (hlow : hexDigit (a.toNat % 16) = hexDigit (b.toNat % 16)) : a = b := by
  have ha := a.toNat_lt
  have hb := b.toNat_lt
  have hhigh := hexDigit_inj _ (by omega) _ (by omega) hhigh
  have hlow := hexDigit_inj _ (by omega) _ (by omega) hlow
  exact UInt8.toNat_inj.1 (by omega)

/-- Different bytes are spelled differently. -/
theorem hex_inj {as bs : Bytes} (h : hex as = hex bs) : as = bs := by
  have hdigits := String.ofList_injective h
  clear h
  induction as generalizing bs with
  | nil =>
    cases bs with
    | nil => rfl
    | cons b bs => cases hdigits
  | cons a as ih =>
    cases bs with
    | nil => cases hdigits
    | cons b bs =>
      simp only [List.flatMap_cons, List.cons_append, List.nil_append, List.cons.injEq] at hdigits
      obtain ⟨hhigh, hlow, hrest⟩ := hdigits
      rw [byte_eq_of_hexDigit_eq hhigh hlow, ih hrest]

theorem dot_notMem_hex (bytes : Bytes) : '.' ∉ (hex bytes).toList := by
  simp only [hex, String.toList_ofList, List.mem_flatMap, List.mem_cons, List.not_mem_nil, or_false,
    not_exists, not_and, not_or]
  intro b _
  have := b.toNat_lt
  exact ⟨(hexDigit_ne_dot _ (by omega)).symm, (hexDigit_ne_dot _ (by omega)).symm⟩

/-- The keys can be told apart by their hashes. -/
def HashesApart (keys : List String) : Prop :=
  ∀ a ∈ keys, ∀ b ∈ keys, Blake3.hash (utf8 a) = Blake3.hash (utf8 b) → a = b

instance (keys : List String) : Decidable (HashesApart keys) :=
  inferInstanceAs (Decidable (∀ a ∈ keys, ∀ b ∈ keys, _ → _))

/-- Paths that are the same end in the same name. -/
theorem name_eq_of_concat_eq {path path' : Path} {name name' : String}
    (h : path ++ [name] = path' ++ [name']) : name = name' :=
  List.singleton_inj.1 (List.append_inj' h rfl).2

/-- A path that ends in a name is always taken only if it is the root. -/
theorem isFixed_concat {path : Path} {name : String} (hpath : path ≠ []) (hname : name ≠ "..") :
    Path.isFixed (path ++ [name]) = false := by
  have hroot : path ++ [name] ≠ ["/"] := by
    intro h
    have hlength := congrArg List.length h
    rw [List.length_append, List.length_singleton, List.length_singleton] at hlength
    exact hpath (List.eq_nil_of_length_eq_zero (by omega))
  simp [Path.isFixed, hname, hroot]

namespace Disk

variable {disk : Disk}

theorem length_directory (disk : Disk) (key : String) :
    (disk.directory key).length = disk.root.length + 1 := by
  simp [directory]

theorem length_path (disk : Disk) (key : String) :
    (disk.path key).length = disk.root.length + 2 := by
  simp [path, length_directory]

theorem length_temporaryPath (disk : Disk) (key : String) :
    (disk.temporaryPath key).length = disk.root.length + 2 := by
  simp [temporaryPath, length_directory]

theorem dropLast_path (disk : Disk) (key : String) :
    (disk.path key).dropLast = disk.directory key := by
  rw [path, List.dropLast_concat]

theorem dropLast_temporaryPath (disk : Disk) (key : String) :
    (disk.temporaryPath key).dropLast = disk.directory key := by
  rw [temporaryPath, List.dropLast_concat]

/-- Keys with resources in the same place have the same hash. -/
theorem path_inj {keys : List String} (hapart : HashesApart keys) {a b : String} (ha : a ∈ keys)
    (hb : b ∈ keys) (h : disk.path a = disk.path b) : a = b := by
  unfold path at h
  exact hapart a ha b hb (hex_inj (name_eq_of_concat_eq h))

/-- A temporary file is never in the place of a resource. -/
theorem temporaryPath_ne_path (a b : String) : disk.temporaryPath a ≠ disk.path b := by
  intro h
  unfold temporaryPath path at h
  refine dot_notMem_hex (Blake3.hash (utf8 b)) ?_
  rw [← fileName, ← name_eq_of_concat_eq h, String.toList_append]
  exact List.mem_append_right _ (by decide)

theorem isFixed_path (disk : Disk) (key : String) : (disk.path key).isFixed = false := by
  refine isFixed_concat (by simp [directory]) fun h => ?_
  refine dot_notMem_hex (Blake3.hash (utf8 key)) ?_
  rw [← fileName, h]
  decide

theorem isFixed_temporaryPath (disk : Disk) (key : String) :
    (disk.temporaryPath key).isFixed = false := by
  refine isFixed_concat (by simp [directory]) fun h => ?_
  have hlength := congrArg String.length h
  rw [String.length_append, show ".tmp".length = 4 by decide, show "..".length = 2 by decide]
    at hlength
  omega

end Disk

end Sidecar
