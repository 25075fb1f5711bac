import Sidecar.Wire.Schema
import Sidecar.Proofs.Json.Text

/-!
# How a content may be spelled

`Schema.Spells` says which values spell a content. A layout leaves a writer some freedom: the
members of an object may come in any order, a dictionary may list its entries in any order, members
that nobody knows may be added with nothing in them, and a record may be the array of its fields.
The value that `Schema.write` gives for a content that fits its layout (`Schema.Fits`) is one of
those that spell it (`Schema.spells_write`).
-/

namespace Sidecar

open Json

/-! ## Members -/

/-- The members of an object, their keys spelled out. -/
def spellMembers (members : List (String × Value)) : List (List Piece × Value) :=
  members.map fun m => (ofText m.1, m.2)

/-- The members of an object that knows some names: those that are known, in any order, and among
them any that are not, with nothing in them. -/
def Arranged (names : List String) (known members : List (String × Value)) : Prop :=
  ∃ unknown : List String, (∀ name ∈ unknown, name ∉ names) ∧
    members.Perm (known ++ unknown.map (·, .null))

/-- The known members as they are. -/
theorem arranged_self (names : List String) (known : List (String × Value)) :
    Arranged names known known :=
  ⟨[], nofun, by simp⟩

/-- The values of the members are those of the known ones, and nothing. -/
theorem Arranged.forall_snd {names : List String} {known members : List (String × Value)}
    (h : Arranged names known members) {P : Value → Prop} (hnull : P .null)
    (hknown : ∀ m ∈ known, P m.2) : ∀ m ∈ members, P m.2 := by
  obtain ⟨unknown, -, hperm⟩ := h
  intro m hm
  rcases List.mem_append.1 (hperm.subset hm) with hm | hm
  · exact hknown m hm
  · obtain ⟨name, -, rfl⟩ := List.mem_map.1 hm
    exact hnull

/-! ## Spelling -/

mutual

/-- The value spells the content under the schema. -/
def Schema.Spells : Schema → Datum → Value → Prop
  | .unit, d, v => d = .unit ∧ v = .null
  | .flag, d, v => ∃ b, d = .flag b ∧ v = .bool b
  | .nat bound, d, v => ∃ n < bound, d = .nat n ∧ v = writeNat n
  | .text, d, v => ∃ t, d = .text t ∧ v = writeText t
  | .name names, d, v => ∃ t ∈ names, d = .text t ∧ v = writeText t
  | .bytes, d, v => ∃ b, d = .bytes b ∧ v = writeBytes b
  | .dict, d, v => ∃ (dict : Dict String) (entries : List (String × String)),
      entries.Perm dict.entries ∧ d = .dict dict ∧
        v = .object (spellMembers (entries.map fun e => (e.1, writeText e.2)))
  | .option content, d, v =>
    d = .none ∧ v = .null ∨ ∃ inner, d = .some inner ∧ content.Spells inner v
  | .list item, d, v => ∃ spelled : List (Datum × Value), d = .list (spelled.map Prod.fst) ∧
      v = .array (spelled.map Prod.snd) ∧ ∀ p ∈ spelled, item.Spells p.1 p.2
  | .record form fields, d, v => ∃ ds known, d = .record ds ∧ fields.Spells ds known ∧
      ((∃ members, Arranged fields.names known members ∧ v = .object (spellMembers members)) ∨
        form ≠ .inline ∧ v = .array (known.map Prod.snd))
  | .union cases, d, v => ∃ name content known members, d = .case name content ∧
      cases.SpellsCase name content known ∧
      Arranged unionNames (("type", writeText name) :: known) members ∧
      v = .object (spellMembers members)

/-- The members spell the contents of a record's fields, in the order of declaration. -/
def Fields.Spells : Fields → List Datum → List (String × Value) → Prop
  | .nil, ds, known => ds = [] ∧ known = []
  | .cons name schema rest, ds, known => ∃ d ds' v known', ds = d :: ds' ∧
      known = (name, v) :: known' ∧ schema.Spells d v ∧ rest.Spells ds' known'

/-- The members spell the content of the named case: there is none where the case has no content. -/
def Fields.SpellsCase : Fields → String → Datum → List (String × Value) → Prop
  | .nil, _, _, _ => False
  | .cons name schema rest, wanted, d, known =>
    name = wanted ∧ (schema = .unit ∧ d = .unit ∧ known = [] ∨
      schema ≠ .unit ∧ ∃ v, known = [("data", v)] ∧ schema.Spells d v) ∨
    name ≠ wanted ∧ rest.SpellsCase wanted d known

end

/-- The members that spell a record's fields have the names of the fields. -/
theorem Fields.Spells.names {fields : Fields} {ds : List Datum} {known : List (String × Value)}
    (h : fields.Spells ds known) : known.map Prod.fst = fields.names := by
  induction known generalizing fields ds with
  | nil =>
    cases fields with
    | nil => rfl
    | cons name schema rest =>
      obtain ⟨_, _, _, _, _, hknown, _⟩ := h
      cases hknown
  | cons m known ih =>
    cases fields with
    | nil => cases h.2
    | cons name schema rest =>
      obtain ⟨_, _, _, _, _, hknown, _, hrest⟩ := h
      cases hknown
      rw [List.map_cons, ih hrest]
      rfl

/-! ## What is written -/

mutual

/-- The content is one that the schema lays out. -/
def Schema.Fits : Schema → Datum → Prop
  | .unit, .unit | .flag, .flag _ | .text, .text _ | .bytes, .bytes _ | .dict, .dict _ => True
  | .nat bound, .nat n => n < bound
  | .name names, .text t => t ∈ names
  | .option _, .none => True
  | .option content, .some d => content.Fits d
  | .list item, .list ds => ∀ d ∈ ds, item.Fits d
  | .record _ fields, .record ds => fields.Fits ds
  | .union cases, .case name d => cases.FitsCase name d
  | _, _ => False

/-- The contents are those of a record's fields. -/
def Fields.Fits : Fields → List Datum → Prop
  | .nil, [] => True
  | .cons _ schema rest, d :: ds => schema.Fits d ∧ rest.Fits ds
  | _, _ => False

/-- The content is that of the named case. -/
def Fields.FitsCase : Fields → String → Datum → Prop
  | .nil, _, _ => False
  | .cons name schema rest, wanted, d =>
    if name = wanted then schema.Fits d else rest.FitsCase wanted d

end

/-- A case with content is written with it. -/
theorem Fields.writeCase_self {name : String} {schema : Schema} (h : schema ≠ .unit) (rest : Fields)
    (d : Datum) :
    (Fields.cons name schema rest).writeCase name d = [(ofText "data", schema.write d)] := by
  cases schema <;> first | exact absurd rfl h | simp [Fields.writeCase]

/-- Other cases are passed over. -/
theorem Fields.writeCase_of_ne {name wanted : String} (h : name ≠ wanted) {schema : Schema}
    {rest : Fields} {d : Datum} :
    (Fields.cons name schema rest).writeCase wanted d = rest.writeCase wanted d := by
  cases schema <;> simp [Fields.writeCase, h]

mutual

/-- A content that fits is written as a value that spells it. -/
theorem Schema.spells_write : ∀ (s : Schema) (d : Datum), s.Fits d → s.Spells d (s.write d)
  | .unit, .unit, _ => ⟨rfl, rfl⟩
  | .flag, .flag b, _ => ⟨b, rfl, rfl⟩
  | .nat _, .nat n, h => ⟨n, h, rfl, rfl⟩
  | .text, .text t, _ => ⟨t, rfl, rfl⟩
  | .name _, .text t, h => ⟨t, h, rfl, rfl⟩
  | .bytes, .bytes b, _ => ⟨b, rfl, rfl⟩
  | .dict, .dict dict, _ => ⟨dict, dict.entries, .rfl, rfl, by
      simp [Schema.write, writeDict, spellMembers]⟩
  | .option _, .none, _ => .inl ⟨rfl, rfl⟩
  | .option content, .some d, h => .inr ⟨d, rfl, by
      rw [Schema.write]
      exact content.spells_write d h⟩
  | .list item, .list ds, h => by
    refine ⟨ds.map fun d => (d, item.write d), ?_, ?_, ?_⟩
    · simp [Function.comp_def]
    · simp [Schema.write, Function.comp_def]
    · intro p hp
      obtain ⟨d, hd, rfl⟩ := List.mem_map.1 hp
      exact item.spells_write d (h d hd)
  | .record form fields, .record ds, h => by
    obtain ⟨known, hwrite, hspells⟩ := fields.spells_write ds h
    refine ⟨ds, known, rfl, hspells, .inl ⟨known, arranged_self _ _, ?_⟩⟩
    rw [Schema.write, hwrite]
  | .union cases, .case name d, h => by
    obtain ⟨known, hwrite, hspells⟩ := cases.spellsCase_writeCase name d h
    refine ⟨name, d, known, _, rfl, hspells, arranged_self _ _, ?_⟩
    rw [Schema.write, hwrite]
    rfl

theorem Fields.spells_write : ∀ (fields : Fields) (ds : List Datum), fields.Fits ds →
    ∃ known, fields.write ds = spellMembers known ∧ fields.Spells ds known
  | .nil, [], _ => ⟨[], by simp [Fields.write, spellMembers], rfl, rfl⟩
  | .cons name schema rest, d :: ds, h => by
    obtain ⟨known, hwrite, hspells⟩ := rest.spells_write ds h.2
    refine ⟨(name, schema.write d) :: known, ?_, d, ds, _, known, rfl, rfl,
      schema.spells_write d h.1, hspells⟩
    rw [Fields.write, hwrite]
    rfl

theorem Fields.spellsCase_writeCase : ∀ (cases : Fields) (name : String) (d : Datum),
    cases.FitsCase name d →
    ∃ known, cases.writeCase name d = spellMembers known ∧ cases.SpellsCase name d known
  | .nil, _, _, h => h.elim
  | .cons name schema rest, wanted, d, h => by
    by_cases hname : name = wanted
    · subst hname
      have hfits : schema.Fits d := by simpa [Fields.FitsCase] using h
      have hspells := schema.spells_write d hfits
      by_cases hunit : schema = .unit
      · subst hunit
        exact ⟨[], by simp [Fields.writeCase, spellMembers], .inl ⟨rfl, .inl ⟨rfl, hspells.1, rfl⟩⟩⟩
      · exact ⟨[("data", schema.write d)], Fields.writeCase_self hunit rest d,
          .inl ⟨rfl, .inr ⟨hunit, _, rfl, hspells⟩⟩⟩
    · have hrest : rest.FitsCase wanted d := by simpa [Fields.FitsCase, hname] using h
      obtain ⟨known, hwrite, hspells⟩ := rest.spellsCase_writeCase wanted d hrest
      refine ⟨known, ?_, .inr ⟨hname, hspells⟩⟩
      rw [Fields.writeCase_of_ne hname, hwrite]

end

end Sidecar
