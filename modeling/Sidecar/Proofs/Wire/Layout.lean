import Mathlib.Data.List.Perm.Basic
import Mathlib.Logic.Relation
import Sidecar.Proofs.Wire.RoundTrip

/-!
# The layout of a text does not matter

`Schema.Relaid` is one change to the layout of a value: the members of an object change places, a
member that nobody knows is added with nothing in it, or a record is given as the array of its
fields; and such a change may happen at any depth. One change leads from a value that spells a
content to one that spells it still (`Schema.Spells.relaid`), and so do any number of them.

A text is another layout of a message (`Wire.LaidOut`) if its tokens are those of the value that
spells the message, after any number of changes, with any white space among them. Every such text is
read as the message. Only the content of a case that is an inline record has to stay an object:
given as an array it is refused.
-/

namespace Sidecar

open Json Relation

/-- The fields with their layouts. -/
def Fields.toList : Fields → List (String × Schema)
  | nil => []
  | cons name schema rest => (name, schema) :: rest.toList

/-! ## Changes to a layout -/

/-- The second value is the first one with one change to its layout. Records of the forms in
`arrays` may become the array of their fields. A new member comes first, since members change places
anyway. -/
inductive Schema.Relaid (arrays : RecordForm → Prop) : Schema → Value → Value → Prop
  | reorder {s : Schema} {members members' : List (String × Value)} (h : members.Perm members') :
      Relaid arrays s (.object (spellMembers members)) (.object (spellMembers members'))
  | addToRecord {form : RecordForm} {fields : Fields} {key : String}
      {members : List (String × Value)} (h : key ∉ fields.names) :
      Relaid arrays (.record form fields) (.object (spellMembers members))
        (.object (spellMembers ((key, .null) :: members)))
  | addToUnion {cases : Fields} {key : String} {members : List (String × Value)}
      (h : key ∉ unionNames) :
      Relaid arrays (.union cases) (.object (spellMembers members))
        (.object (spellMembers ((key, .null) :: members)))
  | toArray {form : RecordForm} {fields : Fields} {members : List (String × Value)}
      {items : List Value} (hform : arrays form)
      (h : fields.names.map (List.lookup · members) = items.map some) :
      Relaid arrays (.record form fields) (.object (spellMembers members)) (.array items)
  | option {content : Schema} {v v' : Value} (h : Relaid arrays content v v') :
      Relaid arrays (.option content) v v'
  | item {item : Schema} {before after : List Value} {v v' : Value} (h : Relaid arrays item v v') :
      Relaid arrays (.list item) (.array (before ++ v :: after)) (.array (before ++ v' :: after))
  | member {form : RecordForm} {fields : Fields} {name : String} {s : Schema}
      {before after : List (String × Value)} {v v' : Value}
      (hname : fields.toList.lookup name = some s) (h : Relaid arrays s v v') :
      Relaid arrays (.record form fields) (.object (spellMembers (before ++ (name, v) :: after)))
        (.object (spellMembers (before ++ (name, v') :: after)))
  | field {form : RecordForm} {fields : Fields} {name : String} {s : Schema}
      {before after : List Value} {v v' : Value}
      (hname : fields.toList[before.length]? = some (name, s)) (h : Relaid arrays s v v') :
      Relaid arrays (.record form fields) (.array (before ++ v :: after))
        (.array (before ++ v' :: after))
  | content {cases : Fields} {name : String} {s : Schema} {before after : List (String × Value)}
      {v v' : Value} (htype : ("type", writeText name) ∈ before ++ ("data", v) :: after)
      (hname : cases.toList.lookup name = some s) (h : Relaid arrays s v v') :
      Relaid arrays (.union cases) (.object (spellMembers (before ++ ("data", v) :: after)))
        (.object (spellMembers (before ++ ("data", v') :: after)))

namespace Schema

variable {arrays : RecordForm → Prop}

/-- There is nothing to change about nothing. -/
theorem Relaid.ne_null {s : Schema} {v v' : Value} (h : s.Relaid arrays v v') : v ≠ .null := by
  induction h with
  | option _ ih => exact ih
  | _ => exact nofun

end Schema

/-! ## Members that are replaced -/

/-- The members of an object are told by how they are spelled. -/
theorem spellMembers_injective : Function.Injective spellMembers := by
  intro members members' h
  have hkeyed : some members = some members' := by
    rw [← keyed?_spellMembers, h, keyed?_spellMembers]
  exact Option.some.inj hkeyed

/-- The names of the fields with their layouts. -/
theorem Fields.map_fst_toList : ∀ fields : Fields, fields.toList.map Prod.fst = fields.names
  | .nil => rfl
  | .cons name _ rest => congrArg (name :: ·) rest.map_fst_toList

/-- What is found under a name is among the members. -/
theorem mem_of_lookup {α : Type} {members : List (String × α)} {name : String} {a : α}
    (h : members.lookup name = some a) : (name, a) ∈ members := by
  obtain ⟨l₁, l₂, rfl, -⟩ := List.lookup_eq_some_iff.1 h
  exact List.mem_append_right _ List.mem_cons_self

/-- The contents of each field can be told apart. -/
theorem Fields.wellFormed_of_mem {name : String} {s : Schema} : ∀ {fields : Fields},
    fields.wellFormed = true → (name, s) ∈ fields.toList → s.wellFormed = true
  | .cons _ _ _, hwf, h => by
    rw [Fields.wellFormed, Bool.and_eq_true] at hwf
    rcases List.mem_cons.1 h with h | h
    · cases h
      exact hwf.1
    · exact Fields.wellFormed_of_mem hwf.2 h

/-- The elements of a list that has one element in the middle when mapped. -/
theorem exists_of_map_eq_append_cons {α β : Type} {f : α → β} {l : List α} {before after : List β}
    {b : β} (h : l.map f = before ++ b :: after) :
    ∃ l₁ a l₂, l = l₁ ++ a :: l₂ ∧ l₁.map f = before ∧ f a = b ∧ l₂.map f = after := by
  obtain ⟨l₁, rest, rfl, hbefore, hrest⟩ := List.map_eq_append_iff.1 h
  obtain ⟨a, l₂, rfl, hb, hafter⟩ := List.map_eq_cons_iff.1 hrest
  exact ⟨l₁, a, l₂, rfl, hbefore, hb, hafter⟩

namespace Arranged

variable {names : List String} {known members : List (String × Value)}

/-- The members change places. -/
theorem perm (h : Arranged names known members) {members' : List (String × Value)}
    (hperm : members.Perm members') : Arranged names known members' := by
  obtain ⟨unknown, hunknown, hmembers⟩ := h
  exact ⟨unknown, hunknown, hperm.symm.trans hmembers⟩

/-- A member that is not known is added. -/
theorem cons (h : Arranged names known members) {key : String} (hkey : key ∉ names) :
    Arranged names known ((key, .null) :: members) := by
  obtain ⟨unknown, hunknown, hmembers⟩ := h
  exact ⟨key :: unknown, List.forall_mem_cons.2 ⟨hkey, hunknown⟩,
    (hmembers.cons _).trans List.perm_middle.symm⟩

/-- A member under one of the names is known. -/
theorem mem_known (h : Arranged names known members) {m : String × Value} (hm : m ∈ members)
    (hname : m.1 ∈ names) : m ∈ known := by
  obtain ⟨unknown, hunknown, hmembers⟩ := h
  rcases List.mem_append.1 (hmembers.subset hm) with hm | hm
  · exact hm
  · obtain ⟨key, hkey, rfl⟩ := List.mem_map.1 hm
    exact absurd hname (hunknown key hkey)

/-- A member under one of the names is replaced where it is known. -/
theorem replace {before after : List (String × Value)} {name : String} {v : Value}
    (h : Arranged names known (before ++ (name, v) :: after)) (hname : name ∈ names) :
    ∃ l₁ l₂, known = l₁ ++ (name, v) :: l₂ ∧
      ∀ v', Arranged names (l₁ ++ (name, v') :: l₂) (before ++ (name, v') :: after) := by
  obtain ⟨l₁, l₂, rfl⟩ := List.append_of_mem (h.mem_known (m := (name, v)) (by simp) hname)
  obtain ⟨unknown, hunknown, hmembers⟩ := h
  -- What stands around the member is what is around it where it is known.
  have hrest : (before ++ after).Perm (l₁ ++ (l₂ ++ unknown.map (·, .null))) := by
    refine List.Perm.cons_inv (a := (name, v)) ?_
    refine (List.perm_middle.symm.trans hmembers).trans ?_
    rw [List.append_assoc, List.cons_append]
    exact List.perm_middle
  refine ⟨l₁, l₂, rfl, fun v' => ⟨unknown, hunknown, ?_⟩⟩
  rw [List.append_assoc, List.cons_append]
  exact List.perm_middle.trans ((hrest.cons _).trans List.perm_middle.symm)

/-- The name of the case is the one that is known. -/
theorem name_eq {name name' : String} {members : List (String × Value)} {v : Value}
    (h : Arranged unionNames [("type", writeText name), ("data", v)] members)
    (hm : ("type", writeText name') ∈ members) : name = name' := by
  have hmem := h.mem_known hm (by simp [unionNames])
  have hvalue : writeText name' = writeText name := by simpa using hmem
  have htext : some name' = some name := by
    rw [← readText?_writeText, hvalue, readText?_writeText]
  exact (Option.some.inj htext).symm

end Arranged

/-- The value of one field is replaced by another that spells the same contents. -/
theorem Fields.Spells.replace {v' : Value} {name : String} {s : Schema} :
    ∀ {fields : Fields} {ds : List Datum} {l₁ l₂ : List (String × Value)} {m : String × Value},
    fields.Spells ds (l₁ ++ m :: l₂) →
    fields.toList[l₁.length]? = some (name, s) → (∀ d, s.Spells d m.2 → s.Spells d v') →
    fields.Spells ds (l₁ ++ (m.1, v') :: l₂)
  | .nil, _, _, _, _, _, hs, _ => nomatch hs
  | .cons _ _ _, _, [], _, _, ⟨d, ds, v, known, hds, hknown, hv, hrest⟩, hs, himp => by
    cases hknown
    cases hs
    exact ⟨d, ds, v', _, hds, rfl, himp d hv, hrest⟩
  | .cons _ _ _, _, _ :: l₁, _, _, ⟨d, ds, v, known, hds, hknown, hv, hrest⟩, hs,
      himp => by
    cases hknown
    exact ⟨d, ds, v, _, hds, rfl, hv, hrest.replace hs himp⟩

/-- The place of a member among those of a record's fields is the place of its field. -/
theorem Fields.Spells.getElem?_toList {fields : Fields} (hnodup : fields.names.Nodup)
    {ds : List Datum} {l₁ l₂ : List (String × Value)} {m : String × Value}
    (h : fields.Spells ds (l₁ ++ m :: l₂)) {s : Schema} (hs : fields.toList.lookup m.1 = some s) :
    fields.toList[l₁.length]? = some (m.1, s) := by
  have hnames : fields.names[l₁.length]? = some m.1 := by
    rw [← h.names]
    simp
  rw [← fields.map_fst_toList, List.getElem?_map, Option.map_eq_some_iff] at hnames
  obtain ⟨⟨_, s'⟩, hfield, rfl⟩ := hnames
  have hlookup := lookup_of_mem (by rwa [fields.map_fst_toList]) (List.mem_of_getElem? hfield)
  rw [hfield, Option.some.inj (hs.symm.trans hlookup)]

/-- The content of a case is replaced by another that spells the same. -/
theorem Fields.SpellsCase.replace {v v' : Value} {s : Schema} {name : String} {d : Datum} :
    ∀ {cases : Fields}, cases.SpellsCase name d [("data", v)] →
    cases.toList.lookup name = some s → (s.Spells d v → s.Spells d v') →
    cases.SpellsCase name d [("data", v')]
  | .cons _ _ _, .inl ⟨_, .inl ⟨_, _, hknown⟩⟩, _, _ => by cases hknown
  | .cons _ _ _, .inl ⟨hname, .inr ⟨hunit, _, hknown, hv⟩⟩, hs, himp => by
    cases hknown
    rw [Fields.toList, hname, List.lookup_cons_self] at hs
    cases hs
    exact .inl ⟨hname, .inr ⟨hunit, v', rfl, himp hv⟩⟩
  | .cons _ _ _, .inr ⟨hname, hrest⟩, hs, himp => by
    rw [Fields.toList, Dict.lookup_cons_eq_ite, if_neg (Ne.symm hname)] at hs
    exact .inr ⟨hname, hrest.replace hs himp⟩

/-! ## One change -/

namespace Schema

variable {arrays : RecordForm → Prop}

/-- The members of an object change places. -/
theorem Spells.reorder {members members' : List (String × Value)} (hperm : members.Perm members') :
    ∀ {s : Schema} {d : Datum}, s.Spells d (.object (spellMembers members)) →
    s.Spells d (.object (spellMembers members'))
  | .unit, _, ⟨_, hv⟩ => nomatch hv
  | .flag, _, ⟨_, _, hv⟩ => nomatch hv
  | .nat _, _, ⟨_, _, _, hv⟩ => nomatch hv
  | .text, _, ⟨_, _, hv⟩ => nomatch hv
  | .name _, _, ⟨_, _, _, hv⟩ => nomatch hv
  | .bytes, _, ⟨_, _, hv⟩ => nomatch hv
  | .list _, _, ⟨_, _, hv, _⟩ => nomatch hv
  | .dict, _, ⟨_, entries, hentries, hd, hv⟩ => by
    have heq : members = entries.map fun e => (e.1, writeText e.2) :=
      spellMembers_injective (Value.object.inj hv)
    have hmap : members'.Perm (entries.map fun e => (e.1, writeText e.2)) := heq ▸ hperm.symm
    rw [← congrFun₂ (List.eq_map_comp_perm _) members' entries] at hmap
    obtain ⟨entries', rfl, hentries'⟩ := hmap
    exact ⟨_, entries', hentries'.trans hentries, hd, rfl⟩
  | .option _, _, .inl ⟨_, hv⟩ => nomatch hv
  | .option _, _, .inr ⟨inner, hd, hinner⟩ => .inr ⟨inner, hd, hinner.reorder hperm⟩
  | .record _ _, _, ⟨ds, known, hd, h, .inl ⟨_, harranged, hv⟩⟩ =>
    have heq := spellMembers_injective (Value.object.inj hv)
    ⟨ds, known, hd, h, .inl ⟨members', (heq ▸ harranged).perm hperm, rfl⟩⟩
  | .record _ _, _, ⟨_, _, _, _, .inr ⟨_, hv⟩⟩ => nomatch hv
  | .union _, _, ⟨caseName, content, known, _, hd, h, harranged, hv⟩ =>
    have heq := spellMembers_injective (Value.object.inj hv)
    ⟨caseName, content, known, members', hd, h, (heq ▸ harranged).perm hperm, rfl⟩

/-- The members of an object that spells a record are those of its fields. -/
theorem Spells.members {form : RecordForm} {fields : Fields} {d : Datum}
    {members : List (String × Value)}
    (h : (record form fields).Spells d (.object (spellMembers members))) :
    ∃ ds known, d = .record ds ∧ fields.Spells ds known ∧
      Arranged fields.names known members := by
  obtain ⟨ds, known, hd, hknown, ⟨_, harranged, hv⟩ | ⟨-, hv⟩⟩ := h
  · exact ⟨ds, known, hd, hknown, spellMembers_injective (Value.object.inj hv) ▸ harranged⟩
  · cases hv

/-- The members of an object that spells a case are its name and its content. -/
theorem Spells.caseMembers {cases : Fields} {d : Datum} {members : List (String × Value)}
    (h : (union cases).Spells d (.object (spellMembers members))) :
    ∃ name content known, d = .case name content ∧ cases.SpellsCase name content known ∧
      Arranged unionNames (("type", writeText name) :: known) members := by
  obtain ⟨name, content, known, _, hd, hknown, harranged, hv⟩ := h
  exact ⟨name, content, known, hd, hknown,
    spellMembers_injective (Value.object.inj hv) ▸ harranged⟩

/-- The content of an object that spells a case may be replaced. -/
theorem Spells.caseContent {cases : Fields} {d : Datum} {before after : List (String × Value)}
    {v : Value} (h : (union cases).Spells d (.object (spellMembers
      (before ++ ("data", v) :: after)))) :
    ∃ name content, d = .case name content ∧ cases.SpellsCase name content [("data", v)] ∧
      ∀ v', Arranged unionNames [("type", writeText name), ("data", v')]
        (before ++ ("data", v') :: after) := by
  obtain ⟨name, content, known, hd, hknown, harranged⟩ := h.caseMembers
  obtain ⟨l₁, l₂, heq, hreplace⟩ := harranged.replace (by simp [unionNames])
  obtain ⟨rfl, rfl, rfl⟩ : l₁ = [("type", writeText name)] ∧ l₂ = [] ∧ known = [("data", v)] := by
    rcases hknown.known_eq with rfl | ⟨v', rfl⟩
    · simp [List.cons_eq_append_iff] at heq
    · rcases l₁ with _ | ⟨m, _ | ⟨m', l₁⟩⟩
      · simp at heq
      · obtain ⟨rfl, rfl, rfl⟩ : ("type", writeText name) = m ∧ v' = v ∧ l₂ = [] := by
          simpa using heq
        exact ⟨rfl, rfl, rfl⟩
      · simp at heq
  exact ⟨name, content, hd, hknown, hreplace⟩

/-- The fields of a record in their order, as they are found among its members. -/
theorem map_lookup_eq {fields : Fields} (hnodup : fields.names.Nodup) {ds : List Datum}
    {known members : List (String × Value)} (h : fields.Spells ds known)
    (harranged : Arranged fields.names known members) :
    fields.names.map (List.lookup · members) = (known.map Prod.snd).map some := by
  have hnames := h.names
  rw [← hnames, List.map_map, List.map_map, List.map_inj_left]
  intro m hm
  have hknown : (known.map Prod.fst).Nodup := hnames ▸ hnodup
  have hname : m.1 ∈ fields.names := hnames ▸ List.mem_map_of_mem hm
  exact (harranged.lookup_eq hknown hname).trans (lookup_of_mem hknown hm)

/-- A value that spells a content still does after a change to its layout. -/
theorem Spells.relaid (harrays : ∀ form, arrays form → form ≠ .inline) {s : Schema} {v v' : Value}
    (h : s.Relaid arrays v v') (hwf : s.wellFormed = true) {d : Datum} (hv : s.Spells d v) :
    s.Spells d v' := by
  induction h generalizing d with
  | reorder hperm => exact hv.reorder hperm
  | addToRecord hkey =>
    obtain ⟨ds, known, rfl, hknown, harranged⟩ := hv.members
    exact ⟨ds, known, rfl, hknown, .inl ⟨_, harranged.cons hkey, rfl⟩⟩
  | addToUnion hkey =>
    obtain ⟨name, content, known, rfl, hknown, harranged⟩ := hv.caseMembers
    exact ⟨name, content, known, _, rfl, hknown, harranged.cons hkey, rfl⟩
  | toArray hform hitems =>
    rw [wellFormed, Bool.and_eq_true, decide_eq_true_eq] at hwf
    obtain ⟨ds, known, rfl, hknown, harranged⟩ := hv.members
    rw [map_lookup_eq hwf.1 hknown harranged] at hitems
    have heq := (List.map_inj_right fun _ _ => Option.some.inj).1 hitems
    exact ⟨ds, known, rfl, hknown, .inr ⟨harrays _ hform, congrArg Value.array heq.symm⟩⟩
  | option h ih =>
    rw [wellFormed, Bool.and_eq_true] at hwf
    rcases hv with ⟨-, hnull⟩ | ⟨inner, hd, hinner⟩
    · exact absurd hnull h.ne_null
    · exact .inr ⟨inner, hd, ih hwf.2 hinner⟩
  | item _ ih =>
    rw [wellFormed] at hwf
    obtain ⟨spelled, rfl, hitems, hspelled⟩ := hv
    obtain ⟨l₁, p, l₂, rfl, rfl, rfl, rfl⟩ :=
      exists_of_map_eq_append_cons (Value.array.inj hitems).symm
    rw [List.forall_mem_append, List.forall_mem_cons] at hspelled
    have hitem := ih hwf hspelled.2.1
    refine ⟨l₁ ++ (p.1, _) :: l₂, by simp, by rw [List.map_append, List.map_cons], ?_⟩
    rw [List.forall_mem_append, List.forall_mem_cons]
    exact ⟨hspelled.1, hitem, hspelled.2.2⟩
  | member hname _ ih =>
    rw [wellFormed, Bool.and_eq_true, decide_eq_true_eq] at hwf
    have hfield := mem_of_lookup hname
    obtain ⟨ds, known, rfl, hknown, harranged⟩ := hv.members
    obtain ⟨l₁, l₂, rfl, hreplace⟩ :=
      harranged.replace (Fields.map_fst_toList _ ▸ List.mem_map_of_mem hfield)
    have hreplaced := hknown.replace (hknown.getElem?_toList hwf.1 hname) fun d hd =>
      ih (Fields.wellFormed_of_mem hwf.2 hfield) hd
    exact ⟨ds, _, rfl, hreplaced, .inl ⟨_, hreplace _, rfl⟩⟩
  | field hname _ ih =>
    rw [wellFormed, Bool.and_eq_true, decide_eq_true_eq] at hwf
    have hfield := List.mem_of_getElem? hname
    obtain ⟨ds, known, rfl, hknown, ⟨_, _, hv⟩ | ⟨hform, hv⟩⟩ := hv
    · cases hv
    · obtain ⟨l₁, m, l₂, rfl, rfl, rfl, rfl⟩ :=
        exists_of_map_eq_append_cons (Value.array.inj hv).symm
      rw [List.length_map] at hname
      have hreplaced := hknown.replace hname fun d hd =>
        ih (Fields.wellFormed_of_mem hwf.2 hfield) hd
      exact ⟨ds, _, rfl, hreplaced, .inr ⟨hform, by simp⟩⟩
  | content htype hname _ ih =>
    rw [wellFormed] at hwf
    obtain ⟨name, content, rfl, hknown, harranged⟩ := hv.caseContent
    obtain rfl := Arranged.name_eq (harranged _) htype
    exact ⟨name, content, _, _, rfl,
      hknown.replace hname (ih (Fields.wellFormed_of_mem hwf (mem_of_lookup hname))), harranged _,
      rfl⟩

/-- A value that spells a content still does after any number of changes to its layout. -/
theorem Spells.relaids (harrays : ∀ form, arrays form → form ≠ .inline) {s : Schema} {v v' : Value}
    (h : ReflTransGen (s.Relaid arrays) v v') (hwf : s.wellFormed = true) {d : Datum}
    (hv : s.Spells d v) : s.Spells d v' := by
  induction h with
  | refl => exact hv
  | tail _ h ih => exact ih.relaid harrays h hwf

end Schema

/-! ## Texts that are laid out otherwise -/

namespace Wire

variable {α : Type} [Wire α]

/-- The text of a value has no white space. -/
theorem spaced_print (v : Value) : Spaced v.tokens v.print := by
  rw [Value.print_eq_flatMap]
  exact spaced_flatMap_print _

/-- The text is a layout of the message: its tokens are those of the value that spells the message,
after any number of changes, with any white space among them. -/
def LaidOut (arrays : RecordForm → Prop) (m : α) (text : Bytes) : Prop :=
  ∃ v, ReflTransGen ((schema α).Relaid arrays) (toValue m) v ∧ Spaced v.tokens text

/-- The messages in a range are read from all their layouts. -/
def ReadsLayouts (α : Type) [Wire α] (InRange : α → Prop) : Prop :=
  ∀ m, InRange m → ∀ text, LaidOut (· ≠ .inline) m text → decode? text = some m

/-- Faithful messages are read from all their layouts, under a schema that tells contents apart and
is not too deep. -/
theorem ReadsLayouts.of_faithful {InRange : α → Prop} (h : ∀ m, InRange m → Faithful m)
    (hwf : (schema α).wellFormed = true) (hdepth : (schema α).depth < maxDepth) :
    ReadsLayouts α InRange := by
  rintro m hm text ⟨v, hv, htext⟩
  have hwritten : (schema α).Spells (toDatum m) (toValue m) :=
    (schema α).spells_write _ (h m hm).fits
  exact (h m hm).decode?_eq hwf hdepth (hwritten.relaids (fun _ => id) hv hwf) htext

/-- Each type of messages is read from all the layouts of its messages. -/
theorem readsLayouts_messages :
    (ReadsLayouts CreateRequest (Any _) ∧ ReadsLayouts CreateReply (Any _) ∧
      ReadsLayouts ResultRequest (Any _) ∧ ReadsLayouts ResultReply (Any _) ∧
      ReadsLayouts FetchRequest (Any _) ∧ ReadsLayouts FetchReply (Any _) ∧
      ReadsLayouts FinalizeRequest (Any _) ∧ ReadsLayouts FinalizeReply (·.kind.InRange)) ∧
    (ReadsLayouts CallHeader (Any _) ∧ ReadsLayouts ServerFrame ServerFrame.InRange) ∧
    (ReadsLayouts WorkerReply (Any _) ∧ ReadsLayouts ReplyTag (Any _) ∧
      ReadsLayouts KeyedReply (Any _)) ∧
    ReadsLayouts TaskOptions (Any _) ∧ ReadsLayouts TaskHeader (Any _) ∧
      ReadsLayouts CreatedTask (Any _) ∧ ReadsLayouts Chunk (Any _) ∧
      ReadsLayouts Fragment (Any _) := by
  have finalizeReply : ReadsLayouts FinalizeReply (·.kind.InRange) :=
    .of_faithful FinalizeReply.faithful (by decide) (by decide)
  have serverFrame : ReadsLayouts ServerFrame ServerFrame.InRange :=
    .of_faithful ServerFrame.faithful (by decide) (by decide)
  refine ⟨⟨?_, ?_, ?_, ?_, ?_, ?_, ?_, finalizeReply⟩, ⟨?_, serverFrame⟩, ⟨?_, ?_, ?_⟩, ?_, ?_, ?_,
    ?_, ?_⟩
  -- All messages of the other types are faithful.
  all_goals exact .of_faithful (fun m _ => m.faithful) (by decide) (by decide)

/-- A request without options, around the value of the member that holds none. -/
def requestAround (content : Value) : Value :=
  .object (spellMembers ([("communication_token", writeText "t")] ++ [("kind",
    .object (spellMembers ([("type", writeText "InitRequest")] ++ [("data", content)])))]))

/-- A request without options whose content comes before its case. -/
def requestWithContentFirst : Value :=
  .object (spellMembers ([("communication_token", writeText "t")] ++ [("kind",
    .object (spellMembers [("data", .object (spellMembers [("task_options", .null)])),
      ("type", writeText "InitRequest")]))]))

/-- A request whose content comes before the case it belongs to is read. -/
theorem readsLayouts_content_first :
    LaidOut (· ≠ .inline) (CreateRequest.mk "t" (some (.initRequest none)))
        requestWithContentFirst.print ∧
      decode? requestWithContentFirst.print =
        some (CreateRequest.mk "t" (some (.initRequest none))) := by
  have hrequest : (schema CreateRequest).Relaid (· ≠ .inline)
      (requestAround (.object (spellMembers [("task_options", .null)])))
      requestWithContentFirst :=
    .member rfl (.option (.reorder (.swap _ _ _)))
  have hlaid : LaidOut (· ≠ .inline) (CreateRequest.mk "t" (some (.initRequest none)))
      requestWithContentFirst.print := ⟨_, .single hrequest, spaced_print _⟩
  exact ⟨hlaid, readsLayouts_messages.1.1 _ trivial _ hlaid⟩

/-- The request with its content as an array is one change away from the request as it is
written. -/
theorem laidOut_requestAround_array :
    LaidOut (fun _ => True) (CreateRequest.mk "t" (some (.initRequest none)))
      (requestAround (.array [.null])).print := by
  have hcontent : initSchema.Relaid (fun _ => True)
      (.object (spellMembers [("task_options", .null)])) (.array [.null]) := .toArray trivial rfl
  have hrequest : (schema CreateRequest).Relaid (fun _ => True)
      (requestAround (.object (spellMembers [("task_options", .null)])))
      (requestAround (.array [.null])) :=
    .member rfl (.option (.content List.mem_cons_self rfl hcontent))
  exact ⟨_, .single hrequest, spaced_print _⟩

/-- Not every record may be given as an array: the content of a case that is an inline record is
refused. -/
theorem inline_record_is_no_array :
    ¬ ∀ (m : CreateRequest) (text : Bytes), LaidOut (fun _ => True) m text →
      decode? text = some m := by
  intro h
  have hread := h _ _ laidOut_requestAround_array
  have hnone : (decode? (requestAround (.array [.null])).print : Option CreateRequest) = none := by
    decide
  rw [hnone] at hread
  cases hread

end Wire

end Sidecar
