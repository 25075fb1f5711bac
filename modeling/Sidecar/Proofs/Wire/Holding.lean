import Sidecar.Proofs.Json.RoundTrip
import Sidecar.Proofs.Wire.Spelling

/-!
# Values that messages are spelled with

A value that spells a content is made of texts and of natural numbers of 64 bits, and is nested no
deeper than the schema (`Schema.Spells.plain`). Such a value can be written and read back, and it
can be held back until the case it belongs to is known (`Json.Value.Plain.storable`).
-/

namespace Sidecar

open Json

namespace Json

/-- The value is made of texts and of natural numbers of 64 bits, and nested at most so deep. -/
inductive Value.Plain : Nat → Value → Prop
  | null {levels : Nat} : Plain levels .null
  | bool {levels : Nat} (b : Bool) : Plain levels (.bool b)
  | nat {levels n : Nat} (h : n ≤ significandLimit) : Plain levels (writeNat n)
  | text {levels : Nat} (t : String) : Plain levels (writeText t)
  | array {levels : Nat} {items : List Value} (h : ∀ item ∈ items, Plain levels item) :
      Plain (levels + 1) (.array items)
  | object {levels : Nat} {members : List (String × Value)} (h : ∀ m ∈ members, Plain levels m.2) :
      Plain (levels + 1) (.object (spellMembers members))

/-- A value that is nested less deep. -/
theorem Value.Plain.mono {levels levels' : Nat} {v : Value} (h : v.Plain levels)
    (hle : levels ≤ levels') : v.Plain levels' := by
  induction h generalizing levels' with
  | null => exact .null
  | bool b => exact .bool b
  | nat h => exact .nat h
  | text t => exact .text t
  | array _ ih =>
    obtain ⟨levels', rfl⟩ : ∃ l, levels' = l + 1 := ⟨levels' - 1, by omega⟩
    exact .array fun item hitem => ih item hitem (by omega)
  | object _ ih =>
    obtain ⟨levels', rfl⟩ : ∃ l, levels' = l + 1 := ⟨levels' - 1, by omega⟩
    exact .object fun m hm => ih m hm (by omega)

/-- It can be written and read back. -/
theorem Value.Plain.written {levels : Nat} {v : Value} (h : v.Plain levels) : v.Written := by
  induction h with
  | null => exact .null
  | bool b => exact .bool b
  | nat _ => exact .nat _
  | text t => exact .string (unquoted_ofText t)
  | array _ ih => exact .array ih
  | object _ ih =>
    refine .object ?_ ?_
    · intro p hp
      obtain ⟨m, -, rfl⟩ := List.mem_map.1 hp
      exact unquoted_ofText m.1
    · intro p hp
      obtain ⟨m, hm, rfl⟩ := List.mem_map.1 hp
      exact ih m hm

/-! ## Natural numbers are finite -/

/-- The digits of a number within the limit are all kept. -/
theorem leadingDigits_eq {ds : List Nat} {significand : Nat}
    (h : ds.foldl (fun n d => n * 10 + d) significand ≤ significandLimit) :
    leadingDigits significand ds = (ds.foldl (fun n d => n * 10 + d) significand, 0) := by
  induction ds generalizing significand with
  | nil => rfl
  | cons d ds ih =>
    have hle : ∀ (ds : List Nat) (n : Nat), n ≤ ds.foldl (fun n d => n * 10 + d) n := by
      intro ds
      induction ds with
      | nil => exact fun _ => Nat.le_refl _
      | cons d ds ih =>
        intro n
        have := ih (n * 10 + d)
        simp only [List.foldl_cons]
        omega
    rw [List.foldl_cons] at h
    rw [leadingDigits, if_pos (Nat.le_trans (hle ds _) h), ih h]
    rfl

/-- Rounding at most doubles a number. -/
theorem roundTo53_le (n : Nat) (h : n ≠ 0) : roundTo53 n ≤ 2 * n := by
  have hunit : 2 ^ (n.log2 + 1 - 53) ≤ n :=
    Nat.le_trans (Nat.pow_le_pow_right (by decide) (by omega)) (Nat.log2_self_le h)
  have hquotient : n / 2 ^ (n.log2 + 1 - 53) * 2 ^ (n.log2 + 1 - 53) ≤ n := Nat.div_mul_le_self _ _
  simp only [roundTo53, Nat.pow_eq]
  split
  · rw [Nat.add_mul]
    omega
  · omega

/-- Twice the largest number of 64 bits is far below the least that is rounded to infinity. -/
theorem two_mul_significandLimit_lt : 2 * significandLimit < doubleBound := by
  have hsmall : 2 * significandLimit < 2 ^ 65 := by decide
  unfold doubleBound
  -- The powers are too large to be evaluated.
  generalize hn : 1024 = n
  generalize hm : 970 = m
  have hpow : 2 ^ 65 ≤ 2 ^ m := Nat.pow_le_pow_right (by decide) (by omega)
  have hdouble : 2 ^ (m + 1) ≤ 2 ^ n := Nat.pow_le_pow_right (by decide) (by omega)
  rw [Nat.pow_succ] at hdouble
  simp only [Nat.pow_eq]
  omega

/-- A natural number of 64 bits is finite. -/
theorem isFinite_ofNat {n : Nat} (h : n ≤ significandLimit) : (ofNat n).isFinite = true := by
  have hdigits : leadingDigits 0 (digits n) = (n, 0) := by
    have hof : (digits n).foldl (fun n d => n * 10 + d) 0 = n := ofDigits_digits n
    rw [leadingDigits_eq (by rw [hof]; exact h), hof]
  have hrange : inDoubleRange n 0 = true := by
    unfold inDoubleRange
    by_cases hn : n = 0
    · simp [hn]
    · have hle := roundTo53_le n hn
      have hone : roundTo53 (Nat.pow 10 (0 : Int).toNat) = 1 := by decide
      rw [if_neg (by simp [hn]), if_neg (by decide), hone, decide_eq_true_iff]
      have hlimit := two_mul_significandLimit_lt
      omega
  simp only [Number.isFinite, ofNat, hdigits, trailingDigits]
  exact hrange

/-! ## Holding back -/

theorem storableItems_iff {items : List Value} {depth : Nat} :
    storableItems items depth = true ↔ ∀ item ∈ items, item.storable depth = true := by
  induction items with
  | nil => simp [storableItems]
  | cons item items ih => simp [storableItems, ih]

theorem storableMembers_spellMembers_iff {members : List (String × Value)} {depth : Nat} :
    storableMembers (spellMembers members) depth = true ↔
      ∀ m ∈ members, m.2.storable depth = true := by
  induction members with
  | nil => simp [spellMembers, storableMembers]
  | cons m members ih =>
    simp only [spellMembers, List.map_cons, storableMembers, storableMember, text?_ofText,
      Option.isSome_some, Bool.true_and, Bool.and_eq_true, List.forall_mem_cons] at ih ⊢
    rw [ih]

/-- It can be held back where there are enough levels of nesting left. -/
theorem Value.Plain.storable {levels depth : Nat} {v : Value} (h : v.Plain levels)
    (hlt : levels < depth) : v.storable depth = true := by
  induction h generalizing depth with
  | null => rfl
  | bool b => rfl
  | nat h => exact isFinite_ofNat h
  | text t => simp [writeText, Value.storable]
  | array _ ih =>
    simp only [Value.storable, Bool.and_eq_true, decide_eq_true_eq, storableItems_iff]
    exact ⟨by omega, fun item hitem => ih item hitem (by omega)⟩
  | object _ ih =>
    simp only [Value.storable, Bool.and_eq_true, decide_eq_true_eq,
      storableMembers_spellMembers_iff]
    exact ⟨by omega, fun m hm => ih m hm (by omega)⟩

end Json

/-! ## Spelled values -/

mutual

/-- The levels of nesting of the values under the schema. -/
def Schema.depth : Schema → Nat
  | .bytes | .dict => 1
  | .option content => content.depth
  | .list item => item.depth + 1
  | .record _ fields | .union fields => fields.depth + 1
  | _ => 0

/-- The levels of nesting of the fields' values. -/
def Fields.depth : Fields → Nat
  | .nil => 0
  | .cons _ schema rest => max schema.depth rest.depth

end

/-- Is a content never spelled as nothing? -/
def Schema.solid : Schema → Bool
  | .unit | .option _ => false
  | _ => true

mutual

/-- Can the contents be told apart? Natural numbers have 64 bits, an option that is not set is not
one that is, and the fields of a record are told apart by their names. -/
def Schema.wellFormed : Schema → Bool
  | .nat bound => bound ≤ significandLimit + 1
  | .option content => content.solid && content.wellFormed
  | .list item => item.wellFormed
  | .record _ fields => decide fields.names.Nodup && fields.wellFormed
  | .union cases => cases.wellFormed
  | _ => true

/-- Can the contents of each field be told apart? -/
def Fields.wellFormed : Fields → Bool
  | .nil => true
  | .cons _ schema rest => schema.wellFormed && rest.wellFormed

end

mutual

/-- A value that spells a content is plain, and nested no deeper than the schema. -/
theorem Schema.Spells.plain : ∀ {s : Schema} {d : Datum} {v : Value}, s.wellFormed = true →
    s.Spells d v → v.Plain s.depth
  | .unit, _, _, _, ⟨_, hv⟩ => hv ▸ .null
  | .flag, _, _, _, ⟨b, _, hv⟩ => hv ▸ .bool b
  | .nat bound, _, _, hwf, ⟨n, hn, _, hv⟩ => by
    have hbound : bound ≤ significandLimit + 1 := by simpa [Schema.wellFormed] using hwf
    exact hv ▸ .nat (by omega)
  | .text, _, _, _, ⟨t, _, hv⟩ => hv ▸ .text t
  | .name _, _, _, _, ⟨t, _, _, hv⟩ => hv ▸ .text t
  | .bytes, _, _, _, ⟨b, _, hv⟩ => by
    subst hv
    refine .array fun item hitem => ?_
    obtain ⟨byte, -, rfl⟩ := List.mem_map.1 hitem
    have hbyte := byte.toNat_lt
    exact .nat (by simp only [significandLimit]; omega)
  | .dict, _, _, _, ⟨_, entries, _, _, hv⟩ => by
    subst hv
    refine .object fun m hm => ?_
    obtain ⟨e, -, rfl⟩ := List.mem_map.1 hm
    exact .text e.2
  | .option content, _, _, hwf, h => by
    rw [Schema.wellFormed, Bool.and_eq_true] at hwf
    rcases h with ⟨-, rfl⟩ | ⟨inner, -, hinner⟩
    · exact .null
    · rw [Schema.depth]
      exact hinner.plain hwf.2
  | .list item, _, _, hwf, ⟨spelled, _, hv, h⟩ => by
    subst hv
    refine .array fun v hv => ?_
    obtain ⟨p, hp, rfl⟩ := List.mem_map.1 hv
    exact (h p hp).plain hwf
  | .record form fields, _, _, hwf, ⟨ds, known, _, h, hv⟩ => by
    rw [Schema.wellFormed, Bool.and_eq_true] at hwf
    have hknown := h.plain hwf.2
    rcases hv with ⟨members, harranged, rfl⟩ | ⟨-, rfl⟩
    · exact .object (harranged.forall_snd .null hknown)
    · refine .array fun v hv => ?_
      obtain ⟨m, hm, rfl⟩ := List.mem_map.1 hv
      exact hknown m hm
  | .union cases, _, _, hwf, ⟨name, content, known, members, _, h, harranged, hv⟩ => by
    subst hv
    refine .object (harranged.forall_snd .null fun m hm => ?_)
    rcases List.mem_cons.1 hm with rfl | hm
    · exact .text name
    · exact h.plain hwf m hm

theorem Fields.Spells.plain : ∀ {fields : Fields} {ds : List Datum} {known : List (String × Value)},
    fields.wellFormed = true → fields.Spells ds known → ∀ m ∈ known, m.2.Plain fields.depth
  | .nil, _, _, _, ⟨_, hknown⟩ => by simp [hknown]
  | .cons name schema rest, _, _, hwf, ⟨d, ds, v, known, _, hknown, hv, hrest⟩ => by
    rw [Fields.wellFormed, Bool.and_eq_true] at hwf
    subst hknown
    intro m hm
    rcases List.mem_cons.1 hm with rfl | hm
    · exact (hv.plain hwf.1).mono (Nat.le_max_left _ _)
    · exact (hrest.plain hwf.2 m hm).mono (Nat.le_max_right _ _)

theorem Fields.SpellsCase.plain : ∀ {cases : Fields} {name : String} {d : Datum}
    {known : List (String × Value)}, cases.wellFormed = true → cases.SpellsCase name d known →
    ∀ m ∈ known, m.2.Plain cases.depth
  | .nil, _, _, _, _, h => h.elim
  | .cons name schema rest, _, _, _, hwf, h => by
    rw [Fields.wellFormed, Bool.and_eq_true] at hwf
    intro m hm
    rcases h with ⟨-, ⟨-, -, rfl⟩ | ⟨-, v, rfl, hv⟩⟩ | ⟨-, hrest⟩
    · cases hm
    · rw [List.mem_singleton.1 hm]
      exact (hv.plain hwf.1).mono (Nat.le_max_left _ _)
    · exact (hrest.plain hwf.2 m hm).mono (Nat.le_max_right _ _)

end

end Sidecar
