import Sidecar.Proofs.Wire.Holding

/-!
# Reading what spells a content

Every value that spells a content is read as that content (`Schema.read?_of_spells`): in which order
the members of an object come, which unknown members are among them, and whether the content of a
case comes before its name makes no difference. A schema must tell its contents apart
(`Schema.wellFormed`), and a value that streams in must not be nested too deep (`Mode.Holds`).
-/

namespace Sidecar

open Json

/-! ## Members by their names -/

/-- Keys that are texts are read as those texts. -/
@[simp] theorem keyed?_spellMembers (members : List (String × Value)) :
    keyed? (spellMembers members) = some members := by
  induction members with
  | nil => rfl
  | cons m members ih =>
    unfold keyed? spellMembers at ih ⊢
    rw [List.map_cons, List.mapM_cons, ih]
    simp

/-- The value under a key is that of the first member with the key. -/
theorem lookup_eq_filter {α : Type} (members : List (String × α)) (key : String) :
    members.lookup key = (members.filter fun m => m.1 = key).head?.map Prod.snd := by
  induction members with
  | nil => rfl
  | cons m members ih =>
    rw [Dict.lookup_cons_eq_ite, List.filter_cons]
    by_cases h : key = m.1
    · simp [h]
    · simp [h, Ne.symm h, ih]

/-- Names that are told apart occur at most once. -/
theorem length_filter_le_one {α : Type} {members : List (String × α)}
    (h : (members.map Prod.fst).Nodup) (key : String) :
    (members.filter fun m => m.1 = key).length ≤ 1 := by
  induction members with
  | nil => exact Nat.zero_le _
  | cons m members ih =>
    obtain ⟨hm, hmembers⟩ := List.nodup_cons.1 h
    rw [List.filter_cons]
    split
    next heq =>
      have hnone : (members.filter fun m => m.1 = key) = [] := by
        refine List.filter_eq_nil_iff.2 fun m' hm' heq' => hm ?_
        rw [of_decide_eq_true heq, ← of_decide_eq_true heq']
        exact List.mem_map_of_mem hm'
      simp [hnone]
    next => exact ih hmembers

/-- The value under a name that is told apart. -/
theorem lookup_of_mem {α : Type} {members : List (String × α)}
    (h : (members.map Prod.fst).Nodup) {m : String × α} (hm : m ∈ members) :
    members.lookup m.1 = some m.2 := by
  have hmem : m ∈ members.filter fun m' => m'.1 = m.1 := List.mem_filter.2 ⟨hm, by simp⟩
  have hone := length_filter_le_one h m.1
  rw [lookup_eq_filter]
  generalize (members.filter fun m' => m'.1 = m.1) = found at hmem hone
  match found, hmem, hone with
  | [_], hmem, _ => rw [List.mem_singleton.1 hmem]; rfl

/-- There is one order only of at most one element. -/
theorem eq_of_perm_of_length_le_one {α : Type} {l l' : List α} (h : l.Perm l')
    (hone : l'.length ≤ 1) : l = l' := by
  match l', hone with
  | [], _ => exact h.eq_nil
  | [_], _ => exact h.eq_singleton

namespace Arranged

variable {names : List String} {known members : List (String × Value)}

/-- Under a name there is what is known under it. -/
theorem filter_perm (h : Arranged names known members) {name : String} (hname : name ∈ names) :
    (members.filter fun m => m.1 = name).Perm (known.filter fun m => m.1 = name) := by
  obtain ⟨unknown, hunknown, hperm⟩ := h
  have hnone : ((unknown.map (·, Value.null)).filter fun m => m.1 = name) = [] := by
    refine List.filter_eq_nil_iff.2 fun m hm heq => ?_
    obtain ⟨name', hname', rfl⟩ := List.mem_map.1 hm
    have hname'' : name' = name := of_decide_eq_true heq
    exact hunknown name' hname' (hname'' ▸ hname)
  simpa [hnone] using hperm.filter fun m => m.1 = name

/-- The value under a name is the one that is known under it. -/
theorem lookup_eq (h : Arranged names known members) (hnodup : (known.map Prod.fst).Nodup)
    {name : String} (hname : name ∈ names) : members.lookup name = known.lookup name := by
  rw [lookup_eq_filter, lookup_eq_filter,
    eq_of_perm_of_length_le_one (h.filter_perm hname) (length_filter_le_one hnodup name)]

/-- The members are those of an object that knows the names. -/
theorem wellKeyed (h : Arranged names known members) (hnodup : (known.map Prod.fst).Nodup)
    (hknown : ∀ m ∈ known, m.1 ∈ names) (mode : Mode) :
    wellKeyed mode names members = true := by
  simp only [Sidecar.wellKeyed, Bool.and_eq_true, List.all_eq_true, Bool.or_eq_true,
    decide_eq_true_eq, List.contains_iff_mem]
  constructor
  · intro name hname
    rw [(h.filter_perm hname).length_eq]
    exact length_filter_le_one hnodup name
  · obtain ⟨unknown, -, hperm⟩ := h
    intro m hm
    rcases List.mem_append.1 (hperm.subset hm) with hm | hm
    · exact .inl (hknown m hm)
    · obtain ⟨name, -, rfl⟩ := List.mem_map.1 hm
      exact .inr (by cases mode <;> rfl)

end Arranged

/-! ## Dictionaries -/

namespace Dict

variable {α : Type}

/-- A new key is added. -/
theorem insertEntry_perm {key : String} {value : α} {entries : List (String × α)}
    (h : key ∉ entries.map Prod.fst) :
    (insertEntry key value entries).Perm ((key, value) :: entries) := by
  induction entries with
  | nil => exact .rfl
  | cons e entries ih =>
    rw [List.map_cons, List.mem_cons, not_or] at h
    unfold insertEntry
    rw [if_neg h.1]
    split
    · exact .rfl
    · exact ((ih h.2).cons e).trans (.swap _ _ _)

/-- New entries are added one after the other. -/
theorem foldl_insert_perm (entries : List (String × α)) (dict : Dict α)
    (h : ((dict.entries ++ entries).map Prod.fst).Nodup) :
    (entries.foldl (fun dict e => dict.insert e.1 e.2) dict).entries.Perm
      (dict.entries ++ entries) := by
  induction entries generalizing dict with
  | nil => simp
  | cons e entries ih =>
    have hmove : (dict.entries ++ e :: entries).Perm (e :: (dict.entries ++ entries)) :=
      List.perm_middle
    have hnodup := (hmove.map Prod.fst).nodup_iff.1 h
    have hnew : e.1 ∉ dict.entries.map Prod.fst := by
      rw [List.map_cons, List.nodup_cons, List.map_append, List.mem_append, not_or] at hnodup
      exact hnodup.1.1
    have hinsert : ((dict.insert e.1 e.2).entries ++ entries).Perm
        (e :: (dict.entries ++ entries)) :=
      (insertEntry_perm hnew).append_right entries
    rw [List.foldl_cons]
    exact (ih _ ((hinsert.map Prod.fst).nodup_iff.2 hnodup)).trans (hinsert.trans hmove.symm)

/-- The keys of a dictionary are told apart. -/
theorem nodup_keys (dict : Dict α) : (dict.entries.map Prod.fst).Nodup := by
  refine List.Pairwise.map Prod.fst ?_ dict.sorted
  intro e e' hlt heq
  exact String.lt_irrefl _ (heq ▸ hlt)

/-- The entries of a dictionary may be listed in any order. -/
theorem ofList_of_perm {dict : Dict α} {entries : List (String × α)}
    (h : entries.Perm dict.entries) : ofList entries = dict := by
  have hnodup : (entries.map Prod.fst).Nodup := (h.map Prod.fst).nodup_iff.2 dict.nodup_keys
  have hperm : (ofList entries).entries.Perm dict.entries :=
    (foldl_insert_perm entries empty hnodup).trans h
  have heq : (ofList entries).entries = dict.entries := by
    refine hperm.eq_of_pairwise ?_ (ofList entries).sorted dict.sorted
    intro e e' _ _ hlt hlt'
    exact absurd (String.lt_trans hlt hlt') (String.lt_irrefl _)
  cases hof : ofList entries
  cases dict
  simp_all

end Dict

/-! ## Levels of nesting -/

namespace Mode

/-- Are there enough levels of nesting left? A value that was held back has been checked already. -/
def Holds : Mode → Nat → Prop
  | streamed depth, levels => levels < depth
  | stored, _ => True

variable {mode : Mode} {levels levels' : Nat}

theorem Holds.mono (h : mode.Holds levels) (hle : levels' ≤ levels) : mode.Holds levels' := by
  cases mode with
  | streamed depth => exact Nat.lt_of_le_of_lt hle h
  | stored => trivial

/-- An array or object can be entered, with one level less inside. -/
theorem Holds.enter? (h : mode.Holds (levels + 1)) :
    ∃ inner, mode.enter? = some inner ∧ inner.Holds levels := by
  cases mode with
  | streamed depth =>
    have hlt : levels + 1 < depth := h
    exact ⟨streamed (depth - 1), if_pos (by omega), by simp only [Holds]; omega⟩
  | stored => exact ⟨stored, rfl, trivial⟩

/-- A plain value can be held back, and is then read as well. -/
theorem Holds.hold? (h : mode.Holds levels) {v : Value} (hv : v.Plain levels) :
    ∃ held, mode.hold? v = some held ∧ held.Holds levels := by
  cases mode with
  | streamed depth => exact ⟨stored, if_pos (hv.storable h), trivial⟩
  | stored => exact ⟨stored, rfl, trivial⟩

end Mode

/-! ## Reading a spelled value -/

/-- Texts are read back. -/
@[simp] theorem readText?_writeText (t : String) : readText? (writeText t) = some t :=
  text?_ofText t

/-- Numbers below the bound are read back. -/
theorem readNat?_writeNat {n bound : Nat} (h : n < bound) :
    readNat? bound (writeNat n) = some n := by
  simp [readNat?, writeNat, ofNat, Number.nat?, h]

/-- Names are read back. -/
@[simp] theorem readName?_writeText (mode : Mode) (t : String) :
    readName? mode (writeText t) = some t :=
  text?_ofText t

/-- If every item is read, all of them are. -/
theorem mapM_eq_some {α β γ : Type} {f : β → Option γ} {g : α → β} {k : α → γ} {l : List α}
    (h : ∀ a ∈ l, f (g a) = some (k a)) : (l.map g).mapM f = some (l.map k) := by
  induction l with
  | nil => rfl
  | cons a l ih =>
    rw [List.forall_mem_cons] at h
    rw [List.map_cons, List.mapM_cons, h.1, ih h.2]
    rfl

/-- Bytes are read back. -/
theorem readBytes?_writeBytes {mode : Mode} (h : mode.Holds 1) (b : Bytes) :
    readBytes? mode (writeBytes b) = some b := by
  obtain ⟨inner, henter, -⟩ := h.enter?
  have hitems := mapM_eq_some (f := fun item => UInt8.ofNat <$> readNat? 256 item)
    (g := fun byte : UInt8 => writeNat byte.toNat) (k := id) (l := b) fun byte _ => by
      simp [readNat?_writeNat byte.toNat_lt]
  simp only [readBytes?, writeBytes, henter, Option.bind_eq_bind, Option.bind_some, hitems,
    List.map_id]

/-- A dictionary is read back from its entries in any order. -/
theorem readDict?_of_perm {mode : Mode} (h : mode.Holds 1) {dict : Dict String}
    {entries : List (String × String)} (hperm : entries.Perm dict.entries) :
    readDict? mode (.object (spellMembers (entries.map fun e => (e.1, writeText e.2)))) =
      some dict := by
  obtain ⟨inner, henter, -⟩ := h.enter?
  have hentries := mapM_eq_some (g := fun e : String × String => (e.1, writeText e.2)) (k := id)
    (f := fun m : String × Value => (readText? m.2).map fun v => (m.1, v)) (l := entries)
    fun e _ => by simp
  simp only [readDict?, henter, keyed?_spellMembers, Option.bind_eq_bind, Option.bind_some,
    hentries, List.map_id, Option.map_eq_map, Option.map_some, Dict.ofList_of_perm hperm]

/-- A content under a solid schema is not spelled as nothing. -/
theorem Schema.Spells.ne_null {s : Schema} {d : Datum} {v : Value} (h : s.Spells d v)
    (hs : s.solid = true) : v ≠ .null := by
  rintro rfl
  cases s with
  | unit => cases hs
  | option => cases hs
  | flag => obtain ⟨_, _, hv⟩ := h; cases hv
  | nat => obtain ⟨_, _, _, hv⟩ := h; cases hv
  | text => obtain ⟨_, _, hv⟩ := h; cases hv
  | name => obtain ⟨_, _, _, hv⟩ := h; cases hv
  | bytes => obtain ⟨_, _, hv⟩ := h; cases hv
  | dict => obtain ⟨_, _, _, _, hv⟩ := h; cases hv
  | list => obtain ⟨_, _, hv, _⟩ := h; cases hv
  | record => obtain ⟨_, _, _, _, ⟨_, _, hv⟩ | ⟨_, hv⟩⟩ := h <;> cases hv
  | union => obtain ⟨_, _, _, _, _, _, _, hv⟩ := h; cases hv

/-- What is not nothing is read as the content of an option. -/
theorem Schema.read?_option {content : Schema} {mode : Mode} {v : Value} (h : v ≠ .null) :
    (option content).read? mode v = .some <$> content.read? mode v := by
  rw [Schema.read?]
  exact h

/-- Besides its name a case has at most its content. -/
theorem Fields.SpellsCase.known_eq : ∀ {cases : Fields} {name : String} {d : Datum}
    {known : List (String × Value)}, cases.SpellsCase name d known →
    known = [] ∨ ∃ v, known = [("data", v)]
  | .cons _ _ _, _, _, _, .inl ⟨_, .inl ⟨_, _, hknown⟩⟩ => .inl hknown
  | .cons _ _ _, _, _, _, .inl ⟨_, .inr ⟨_, v, hknown, _⟩⟩ => .inr ⟨v, hknown⟩
  | .cons _ _ _, _, _, _, .inr ⟨_, hrest⟩ => hrest.known_eq

/-- A case without content is read. -/
theorem Fields.absentCase?_of_spells : ∀ {cases : Fields} {name : String} {d : Datum},
    cases.SpellsCase name d [] → cases.absentCase? name = some (.case name d)
  | .cons _ _ _, _, _, .inl ⟨hname, .inl ⟨hschema, hd, _⟩⟩ => by
    simp [hname, hschema, hd, Fields.absentCase?, Schema.absent?]
  | .cons _ _ _, _, _, .inl ⟨_, .inr ⟨_, _, hknown, _⟩⟩ => nomatch hknown
  | .cons _ _ _, _, _, .inr ⟨hname, hrest⟩ => by
    rw [Fields.absentCase?, if_neg hname, Fields.absentCase?_of_spells hrest]

/-- A union is read by the name of its case, and from its content if there is one. -/
theorem Schema.read?_union {cases : Fields} {mode inner : Mode} (henter : mode.enter? = some inner)
    {name : String} {known members : List (String × Value)}
    (hknown : known = [] ∨ ∃ v, known = [("data", v)])
    (h : Arranged unionNames (("type", writeText name) :: known) members) :
    (union cases).read? mode (.object (spellMembers members)) =
      match known.lookup "data" with
      | none => cases.absentCase? name
      | some content =>
        (if contentFirst members then inner.hold? content else some inner) >>= fun held =>
          cases.readCase? name held content := by
  have hnodup : ((("type", writeText name) :: known).map Prod.fst).Nodup := by
    rcases hknown with rfl | ⟨v, rfl⟩ <;> simp
  have hmem : ∀ m ∈ ("type", writeText name) :: known, m.1 ∈ unionNames := by
    rcases hknown with rfl | ⟨v, rfl⟩ <;> simp [unionNames]
  have htype : members.lookup "type" = some (writeText name) :=
    h.lookup_eq hnodup (by simp [unionNames])
  have hdata : members.lookup "data" = known.lookup "data" :=
    h.lookup_eq hnodup (by simp [unionNames])
  simp only [Schema.read?, henter, keyed?_spellMembers, h.wellKeyed hnodup hmem inner, htype, hdata,
    readName?_writeText, Option.bind_eq_bind, Option.bind_some, if_true]
  cases known.lookup "data" with
  | none => rfl
  | some content =>
    by_cases hfirst : contentFirst members = true
    · simp [hfirst]
    · simp [hfirst]

mutual

/-- A value that spells a content is read as the content. -/
theorem Schema.read?_of_spells : ∀ {s : Schema} {mode : Mode} {d : Datum} {v : Value},
    s.wellFormed = true → mode.Holds s.depth → s.Spells d v → s.read? mode v = some d
  | .unit, _, _, _, _, _, ⟨hd, hv⟩ => by rw [hd, hv, Schema.read?]
  | .flag, _, _, _, _, _, ⟨b, hd, hv⟩ => by rw [hd, hv, Schema.read?]
  | .nat _, _, _, _, _, _, ⟨n, hn, hd, hv⟩ => by
    rw [hd, hv, Schema.read?, readNat?_writeNat hn]
    rfl
  | .text, _, _, _, _, _, ⟨t, hd, hv⟩ => by
    rw [hd, hv, Schema.read?, readText?_writeText]
    rfl
  | .name names, _, _, _, _, _, ⟨t, ht, hd, hv⟩ => by
    simp [hd, hv, Schema.read?, ht]
  | .bytes, _, _, _, _, hmode, ⟨b, hd, hv⟩ => by
    rw [hd, hv, Schema.read?, readBytes?_writeBytes hmode]
    rfl
  | .dict, _, _, _, _, hmode, ⟨dict, entries, hperm, hd, hv⟩ => by
    rw [hd, hv, Schema.read?, readDict?_of_perm hmode hperm]
    rfl
  | .option content, mode, _, _, hwf, hmode, h => by
    rw [Schema.wellFormed, Bool.and_eq_true] at hwf
    rw [Schema.depth] at hmode
    rcases h with ⟨rfl, rfl⟩ | ⟨inner, rfl, hinner⟩
    · rw [Schema.read?]
    · rw [Schema.read?_option (hinner.ne_null hwf.1), Schema.read?_of_spells hwf.2 hmode hinner]
      rfl
  | .list item, mode, _, _, hwf, hmode, ⟨spelled, hd, hv, h⟩ => by
    obtain ⟨inner, henter, hinner⟩ := Mode.Holds.enter? hmode
    have hitems := mapM_eq_some (f := fun v => item.read? inner v) (l := spelled)
      (g := Prod.snd) (k := Prod.fst) fun p hp => Schema.read?_of_spells hwf hinner (h p hp)
    rw [hd, hv, Schema.read?]
    simp only [henter, Option.bind_eq_bind, Option.bind_some, hitems, Option.map_eq_map,
      Option.map_some]
  | .record form fields, mode, _, _, hwf, hmode, ⟨ds, known, hd, h, hv⟩ => by
    rw [Schema.wellFormed, Bool.and_eq_true, decide_eq_true_eq] at hwf
    obtain ⟨inner, henter, hinner⟩ := Mode.Holds.enter? hmode
    have hnames := h.names
    rcases hv with ⟨members, harranged, rfl⟩ | ⟨hform, rfl⟩
    · have hnodup : (known.map Prod.fst).Nodup := hnames ▸ hwf.1
      have hmem : ∀ m ∈ known, m.1 ∈ fields.names := fun m hm =>
        hnames ▸ List.mem_map_of_mem hm
      have hread := Fields.readMembers?_of_spells form members hwf.2 hinner h
        fun m hm => by rw [harranged.lookup_eq hnodup (hmem m hm), lookup_of_mem hnodup hm]
      rw [hd, Schema.read?]
      simp [henter, harranged.wellKeyed hnodup hmem, hread]
    · rw [hd, Schema.read?]
      simp [henter, hform, Fields.readItems?_of_spells form hwf.2 hinner h]
  | .union cases, mode, _, _, hwf, hmode,
    ⟨name, content, known, members, hd, h, harranged, hv⟩ => by
    subst hd hv
    obtain ⟨inner, henter, hinner⟩ := Mode.Holds.enter? hmode
    rw [Schema.read?_union henter h.known_eq harranged]
    rcases h.known_eq with rfl | ⟨content, rfl⟩
    · exact Fields.absentCase?_of_spells h
    · have hplain := h.plain hwf _ List.mem_cons_self
      have hread : ∀ held : Mode, held.Holds cases.depth → cases.readCase? name held content = _ :=
        fun held hheld => Fields.readCase?_of_spells hwf hheld h
      obtain ⟨held, hhold, hheld⟩ := hinner.hold? hplain
      by_cases hfirst : contentFirst members = true
      · simp [hfirst, hhold, hread held hheld]
      · simp [hfirst, hread inner hinner]

theorem Fields.readMembers?_of_spells : ∀ {fields : Fields} (form : RecordForm)
    (members : List (String × Value)) {mode : Mode} {ds : List Datum}
    {known : List (String × Value)}, fields.wellFormed = true → mode.Holds fields.depth →
    fields.Spells ds known → (∀ m ∈ known, members.lookup m.1 = some m.2) →
    fields.readMembers? form mode members = some ds
  | .nil, _, _, _, _, _, _, _, ⟨hds, _⟩, _ => by rw [hds, Fields.readMembers?]
  | .cons name schema rest, form, members, mode, _, _, hwf, hmode,
      ⟨d, ds, v, known, hds, hknown, hv, hrest⟩, hlookup => by
    subst hds hknown
    rw [Fields.wellFormed, Bool.and_eq_true] at hwf
    rw [List.forall_mem_cons] at hlookup
    have hread := Schema.read?_of_spells hwf.1 (hmode.mono (Nat.le_max_left _ _)) hv
    have hreads := Fields.readMembers?_of_spells form members hwf.2
      (hmode.mono (Nat.le_max_right _ _)) hrest hlookup.2
    simp [Fields.readMembers?, hlookup.1, hread, hreads]

theorem Fields.readCase?_of_spells : ∀ {cases : Fields} {mode : Mode} {name : String} {d : Datum}
    {v : Value}, cases.wellFormed = true → mode.Holds cases.depth →
    cases.SpellsCase name d [("data", v)] → cases.readCase? name mode v = some (.case name d)
  | .cons _ _ _, _, _, _, _, _, _, .inl ⟨_, .inl ⟨_, _, hknown⟩⟩ => nomatch hknown
  | .cons _ _ _, mode, _, _, _, hwf, hmode, .inl ⟨hname, .inr ⟨_, v, hknown, hv⟩⟩ => by
    cases hknown
    rw [Fields.wellFormed, Bool.and_eq_true] at hwf
    rw [Fields.readCase?, if_pos hname,
      Schema.read?_of_spells hwf.1 (hmode.mono (Nat.le_max_left _ _)) hv, hname]
    rfl
  | .cons _ _ _, mode, _, _, _, hwf, hmode, .inr ⟨hname, hrest⟩ => by
    rw [Fields.wellFormed, Bool.and_eq_true] at hwf
    rw [Fields.readCase?, if_neg hname,
      Fields.readCase?_of_spells hwf.2 (hmode.mono (Nat.le_max_right _ _)) hrest]

theorem Fields.readItems?_of_spells : ∀ {fields : Fields} (form : RecordForm) {mode : Mode}
    {ds : List Datum} {known : List (String × Value)}, fields.wellFormed = true →
    mode.Holds fields.depth → fields.Spells ds known →
    fields.readItems? form mode (known.map Prod.snd) = some ds
  | .nil, _, _, _, _, _, _, ⟨hds, hknown⟩ => by
    rw [hds, hknown, List.map_nil, Fields.readItems?]
  | .cons name schema rest, form, mode, _, _, hwf, hmode,
      ⟨d, ds, v, known, hds, hknown, hv, hrest⟩ => by
    subst hds hknown
    rw [Fields.wellFormed, Bool.and_eq_true] at hwf
    have hread := Schema.read?_of_spells hwf.1 (hmode.mono (Nat.le_max_left _ _)) hv
    have hreads := Fields.readItems?_of_spells form hwf.2
      (hmode.mono (Nat.le_max_right _ _)) hrest
    simp [Fields.readItems?, hread, hreads]

end

end Sidecar
