/-!
# Dictionaries

A `Dict` maps texts to values. Its entries are kept in strictly increasing order of their keys, and
the order is part of the type, so two dictionaries that agree on every key are equal, and listing
the entries is listing them sorted.
-/

namespace Sidecar

/-- Strictly increasing keys. -/
def KeysSorted {α : Type} (entries : List (String × α)) : Prop :=
  entries.Pairwise fun a b => a.1 < b.1

instance {α : Type} (entries : List (String × α)) : Decidable (KeysSorted entries) :=
  inferInstanceAs (Decidable (entries.Pairwise fun a b => a.1 < b.1))

/-- A finite map from texts, its entries sorted by key. -/
structure Dict (α : Type) where
  entries : List (String × α)
  sorted : KeysSorted entries
deriving DecidableEq

namespace Dict

variable {α : Type}

/-- The entries with `key` set to `value`, replacing what was there. -/
def insertEntry (key : String) (value : α) : List (String × α) → List (String × α)
  | [] => [(key, value)]
  | (k, v) :: rest =>
    if key < k then (key, value) :: (k, v) :: rest
    else if key = k then (key, value) :: rest
    else (k, v) :: insertEntry key value rest

/-- An entry of the result is the new one or an old one. -/
theorem mem_insertEntry {key : String} {value : α} {e : String × α} :
    ∀ {entries : List (String × α)}, e ∈ insertEntry key value entries →
      e = (key, value) ∨ e ∈ entries
  | [], h => by simpa [insertEntry] using h
  | (k, v) :: rest, h => by
    unfold insertEntry at h
    split at h
    · simpa using h
    · split at h
      · rcases List.mem_cons.1 h with h | h
        · exact .inl h
        · exact .inr (List.mem_cons_of_mem _ h)
      · rcases List.mem_cons.1 h with h | h
        · exact .inr (h ▸ List.mem_cons_self)
        · exact (mem_insertEntry h).imp_right (List.mem_cons_of_mem _)

/-- Setting a key keeps the keys strictly increasing. -/
theorem keysSorted_insertEntry {key : String} {value : α} :
    ∀ {entries : List (String × α)}, KeysSorted entries →
      KeysSorted (insertEntry key value entries)
  | [], _ => List.pairwise_singleton _ _
  | (k, v) :: rest, h => by
    obtain ⟨hk, hrest⟩ := List.pairwise_cons.1 h
    unfold insertEntry
    split
    next hlt =>
      refine List.pairwise_cons.2 ⟨fun e he => ?_, h⟩
      rcases List.mem_cons.1 he with rfl | he
      · exact hlt
      · exact String.lt_trans hlt (hk e he)
    next hlt =>
      split
      next heq => exact List.pairwise_cons.2 ⟨fun e he => heq ▸ hk e he, hrest⟩
      next hne =>
        refine List.pairwise_cons.2 ⟨fun e he => ?_, keysSorted_insertEntry hrest⟩
        rcases mem_insertEntry he with rfl | he
        · by_cases hk' : k < key
          · exact hk'
          · exact absurd (String.le_antisymm hk' hlt) hne
        · exact hk e he

/-- No entries. -/
def empty : Dict α := ⟨[], List.Pairwise.nil⟩

instance : EmptyCollection (Dict α) := ⟨empty⟩

instance : Inhabited (Dict α) := ⟨empty⟩

/-- Set `key` to `value`, replacing what was there. -/
def insert (dict : Dict α) (key : String) (value : α) : Dict α :=
  ⟨insertEntry key value dict.entries, keysSorted_insertEntry dict.sorted⟩

/-- The value under `key`. -/
def get? (dict : Dict α) (key : String) : Option α :=
  dict.entries.lookup key

/-- Is there a value under `key`? -/
def contains (dict : Dict α) (key : String) : Bool :=
  (dict.get? key).isSome

/-- The number of keys. -/
def size (dict : Dict α) : Nat := dict.entries.length

/-- The dictionary of a list of entries, where the last entry of a key counts. -/
def ofList (entries : List (String × α)) : Dict α :=
  entries.foldl (fun dict e => dict.insert e.1 e.2) empty

/-- Change the value under `key`, if there is one. -/
def modify (dict : Dict α) (key : String) (change : α → α) : Dict α :=
  match dict.get? key with
  | some value => dict.insert key (change value)
  | none => dict

/-! ## Looking up what was set -/

/-- The first entry decides about its own key. -/
theorem lookup_cons_eq_ite {κ : Type} [BEq κ] [LawfulBEq κ] [DecidableEq κ] (e : κ × α)
    (rest : List (κ × α)) (k : κ) :
    (e :: rest).lookup k = if k = e.1 then some e.2 else rest.lookup k := by
  rw [List.lookup_cons]
  by_cases h : k = e.1
  · simp [h]
  · have hne : (k == e.1) = false := by simp [h]
    simp [h, hne]

/-- Setting a key is seen under that key and under no other. -/
theorem lookup_insertEntry (key : String) (value : α) (k : String) :
    ∀ entries : List (String × α),
      (insertEntry key value entries).lookup k = if k = key then some value else entries.lookup k
  | [] => by simp [insertEntry, lookup_cons_eq_ite]
  | (k', v) :: rest => by
    unfold insertEntry
    split
    · exact lookup_cons_eq_ite _ _ _
    · split
      next heq =>
        subst heq
        rw [lookup_cons_eq_ite, lookup_cons_eq_ite]
        split <;> rfl
      next hne =>
        rw [lookup_cons_eq_ite, lookup_cons_eq_ite, lookup_insertEntry key value k rest]
        by_cases h : k = k'
        · subst h
          simp [Ne.symm hne]
        · simp [h]

@[simp] theorem get?_empty (k : String) : (∅ : Dict α).get? k = none := rfl

theorem get?_insert (dict : Dict α) (key : String) (value : α) (k : String) :
    (dict.insert key value).get? k = if k = key then some value else dict.get? k :=
  lookup_insertEntry key value k dict.entries

@[simp] theorem get?_insert_self (dict : Dict α) (key : String) (value : α) :
    (dict.insert key value).get? key = some value := by
  simp [get?_insert]

theorem get?_insert_of_ne (dict : Dict α) {key k : String} (value : α) (h : k ≠ key) :
    (dict.insert key value).get? k = dict.get? k := by
  simp [get?_insert, h]

/-- Changing a key is seen under that key and under no other. -/
theorem get?_modify (dict : Dict α) (key : String) (change : α → α) (k : String) :
    (dict.modify key change).get? k =
      if k = key then (dict.get? k).map change else dict.get? k := by
  unfold modify
  cases hv : dict.get? key with
  | none => by_cases h : k = key <;> simp [h, hv]
  | some value =>
    rw [get?_insert]
    by_cases h : k = key <;> simp [h, hv]

theorem contains_eq_false_iff (dict : Dict α) (k : String) :
    dict.contains k = false ↔ dict.get? k = none := by
  simp [contains]

theorem contains_iff (dict : Dict α) (k : String) :
    dict.contains k = true ↔ ∃ value, dict.get? k = some value := by
  simp [contains, Option.isSome_iff_exists]

end Dict

end Sidecar
