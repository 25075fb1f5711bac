import Sidecar.Proofs.Toml.Values

/-!
# Documents are read as they were written

A document of sections is read back as the tables that the sections stand for
(`Toml.parse?_renderSections`), if the names and keys need no quotes and are told apart
(`Toml.Section.Valid`).

Reading goes line by line. `Toml.Draft.Takes` says that the lines of a text lead from one draft to
another whatever comes after them, so texts that are read are put together. A header opens a table
for a name that is not taken yet, and an entry goes into the table that was opened last.
-/

namespace Sidecar

namespace Toml

/-! ## Keys -/

/-- A key that needs no quotes. -/
def IsBareKey (key : String) : Prop := key.toList ≠ [] ∧ key.toList.all inBareKey = true

instance (key : String) : Decidable (IsBareKey key) :=
  inferInstanceAs (Decidable (key.toList ≠ [] ∧ key.toList.all inBareKey = true))

/-- Characters that are not blank are not skipped. -/
theorem skipBlanks_cons {c : Char} (h : isBlank c = false) (rest : List Char) :
    skipBlanks (c :: rest) = c :: rest := by
  rw [skipBlanks, List.dropWhile_cons_of_neg (by simp [h])]

namespace IsBareKey

variable {key : String}

/-- Its characters are of one kind. -/
theorem inBareKey_of_mem (h : IsBareKey key) {c : Char} (hc : c ∈ key.toList) :
    inBareKey c = true :=
  List.all_eq_true.1 h.2 c hc

/-- A key without quotes begins with a character of its kind. -/
theorem exists_toList_eq_cons (h : IsBareKey key) :
    ∃ c cs, key.toList = c :: cs ∧ inBareKey c = true := by
  obtain ⟨c, cs, hkey⟩ := List.exists_cons_of_ne_nil h.1
  exact ⟨c, cs, hkey, h.inBareKey_of_mem (by rw [hkey]; exact List.mem_cons_self)⟩

/-- It begins with no other character. -/
theorem append_ne (h : IsBareKey key) {d : Char} (hd : inBareKey d = false) (rest r : List Char) :
    key.toList ++ rest ≠ d :: r := by
  obtain ⟨c, cs, hkey, hc⟩ := h.exists_toList_eq_cons
  rw [hkey]
  intro heq
  rw [(List.cons.inj heq).1, hd] at hc
  cases hc

/-- It does not begin with a blank. -/
theorem skipBlanks_append (h : IsBareKey key) (rest : List Char) :
    skipBlanks (key.toList ++ rest) = key.toList ++ rest := by
  obtain ⟨c, cs, hkey, hc⟩ := h.exists_toList_eq_cons
  rw [hkey]
  refine skipBlanks_cons (Bool.eq_false_iff.2 fun hblank => ?_) _
  rw [isBlank, Bool.or_eq_true, beq_iff_eq, beq_iff_eq] at hblank
  rcases hblank with rfl | rfl <;> cases hc

/-- A key without quotes is read up to what does not belong to it. -/
theorem simpleKey?_append (h : IsBareKey key) {d : Char} (hd : inBareKey d = false)
    (rest : List Char) :
    simpleKey? (key.toList ++ d :: rest) = some (key, d :: rest) := by
  have hspan := span_append (fun _ => h.inBareKey_of_mem) hd rest
  rw [simpleKey?, hspan]
  · simp [h.1]
  · exact fun r => h.append_ne (by decide) _ r
  · exact fun r => h.append_ne (by decide) _ r

/-- A key of one part is read, and the blanks after it are skipped. -/
theorem key?_append (h : IsBareKey key) {d : Char} (hd : inBareKey d = false) {rest : List Char}
    (hdot : ∀ r, skipBlanks (d :: rest) ≠ '.' :: r) :
    key? (key.toList ++ d :: rest) = some ([], key, skipBlanks (d :: rest)) := by
  have hparts : keyParts? (maxNesting - 1) (key.toList ++ d :: rest) =
      some ([key], skipBlanks (d :: rest)) := by
    show keyParts? (78 + 1) _ = _
    rw [keyParts?, h.skipBlanks_append, h.simpleKey?_append hd]
    simp only [Option.bind_eq_bind, Option.bind_some]
    rfl
  rw [key?, hparts]
  rfl

end IsBareKey

/-! ## Lines -/

/-- A line ends with its line break. -/
theorem lineEnd?_break (rest : List Char) : lineEnd? ('\n' :: rest) = some rest := by
  rw [lineEnd?, skipBlanks_cons (by decide)]
  rfl

/-- The header of a section is read. -/
theorem line?_header {name : String} (h : IsBareKey name) (rest : List Char) :
    line? ('[' :: (name.toList ++ [']', '\n'] ++ rest)) = some (.header [] name, rest) := by
  have hskip : skipBlanks (']' :: '\n' :: rest) = ']' :: '\n' :: rest :=
    skipBlanks_cons (by decide) _
  have hkey : key? (name.toList ++ ']' :: '\n' :: rest) = some ([], name, ']' :: '\n' :: rest) := by
    rw [h.key?_append (by decide) (by simp [hskip]), hskip]
  rw [List.append_assoc]
  show line? ('[' :: (name.toList ++ ']' :: '\n' :: rest)) = _
  rw [line?, hkey]
  · simp [lineEnd?_break]
  · exact fun r => h.append_ne (by decide) _ r

/-- A value does not begin with a blank. -/
theorem Plain.skipBlanks_render (p : Plain) (rest : List Char) :
    skipBlanks (' ' :: (p.render ++ rest)) = p.render ++ rest := by
  obtain ⟨c, cs, hrender, hc⟩ : ∃ c cs, p.render = c :: cs ∧ isBlank c = false := by
    cases p with
    | text s =>
      obtain ⟨quote, more, hquoted, hquote⟩ := exists_renderString_eq_cons s.toList
      rcases hquote with rfl | rfl <;> exact ⟨_, more, hquoted, by decide⟩
    | number n =>
      obtain ⟨c, cs, hdigits⟩ := List.exists_cons_of_ne_nil (Nat.toDigits_ne_nil (n := n) (b := 10))
      refine ⟨c, cs, hdigits, Bool.eq_false_iff.2 fun hblank => ?_⟩
      have hdigit := Nat.isDigit_of_mem_toDigits (b := 10) (n := n) (by decide) (by decide)
        (by rw [hdigits]; exact List.mem_cons_self)
      rw [isBlank, Bool.or_eq_true, beq_iff_eq, beq_iff_eq] at hblank
      rcases hblank with rfl | rfl <;> cases hdigit
    | flag b => cases b <;> exact ⟨_, _, rfl, by decide⟩
  rw [hrender, List.cons_append]
  exact skipBlanks_cons hc _

/-- An entry is read. -/
theorem line?_entry {entry : String × Plain} (h : IsBareKey entry.1) (hrange : entry.2.InRange)
    (rest : List Char) :
    line? (renderEntry entry ++ rest) = some (.pair [] entry.1 entry.2.node, rest) := by
  have hrender : renderEntry entry ++ rest =
      entry.1.toList ++ ' ' :: '=' :: ' ' :: (entry.2.render ++ '\n' :: rest) := by
    simp [renderEntry]
  have hskip : skipBlanks (' ' :: '=' :: ' ' :: (entry.2.render ++ '\n' :: rest)) =
      '=' :: ' ' :: (entry.2.render ++ '\n' :: rest) :=
    skipBlanks_cons (c := '=') (by decide) _
  have hkey : key? (renderEntry entry ++ rest) =
      some ([], entry.1, '=' :: ' ' :: (entry.2.render ++ '\n' :: rest)) := by
    rw [hrender, h.key?_append (by decide) (by simp [hskip]), hskip]
  rw [line?, hkey]
  · simp [Plain.skipBlanks_render, Plain.value?_render hrange, lineEnd?_break]
  all_goals
    intro r heq
    rw [hrender] at heq
    exact h.append_ne (by decide) _ _ heq

/-! ## Entries of tables -/

/-- What is told apart from the elements before it is none of them. -/
theorem not_mem_of_nodup {α : Type} {a : α} {l l' : List α} (h : (l ++ [a] ++ l').Nodup) :
    a ∉ l := by
  have hfirst := (List.nodup_append.1 h).1
  rw [List.nodup_append] at hfirst
  exact fun hmem => hfirst.2.2 _ hmem _ List.mem_cons_self rfl

section Entries

variable {name : String} {node node' : Node} {entries : List (String × Node)}

/-- A name that is not taken leads to nothing. -/
theorem lookup_eq_none_of_not_mem (h : name ∉ entries.map Prod.fst) :
    entries.lookup name = none := by
  rw [List.lookup_eq_none_iff]
  intro e he
  rw [bne_iff_ne]
  rintro rfl
  exact h (List.mem_map_of_mem he)

/-- A name that is not taken leads to what was added last. -/
theorem lookup_concat (h : name ∉ entries.map Prod.fst) :
    (entries ++ [(name, node)]).lookup name = some node := by
  rw [List.lookup_append, lookup_eq_none_of_not_mem h, List.lookup_cons_self]
  rfl

/-- A name that is not taken is set at the end. -/
theorem setEntry_of_not_mem (h : name ∉ entries.map Prod.fst) :
    setEntry name node entries = entries ++ [(name, node)] := by
  induction entries with
  | nil => rfl
  | cons e entries ih =>
    rw [List.map_cons, List.mem_cons, not_or] at h
    rw [setEntry, if_neg (Ne.symm h.1), ih h.2, List.cons_append]

/-- What was added last is set again in its place. -/
theorem setEntry_concat (h : name ∉ entries.map Prod.fst) :
    setEntry name node' (entries ++ [(name, node)]) = entries ++ [(name, node')] := by
  induction entries with
  | nil => exact if_pos rfl
  | cons e entries ih =>
    rw [List.map_cons, List.mem_cons, not_or] at h
    rw [List.cons_append, setEntry, if_neg (Ne.symm h.1), ih h.2, List.cons_append]

end Entries

/-! ## Drafts -/

namespace Draft

/-- A header opens a table for a new name. -/
theorem add_header {entries : List (String × Node)} {name : String}
    (h : name ∉ entries.map Prod.fst) (current : List String) :
    add ⟨.table .headed entries, current⟩ (.header [] name) =
      some ⟨.table .headed (entries ++ [(name, .table .headed [])]), [name]⟩ := by
  simp [add, Node.openTable, Node.enter, lookup_eq_none_of_not_mem h, setEntry_of_not_mem h]

/-- A key goes into the table that was opened last. -/
theorem add_pair {entries es : List (String × Node)} {name key : String}
    (h : name ∉ entries.map Prod.fst) (hkey : key ∉ es.map Prod.fst) (value : Node) :
    add ⟨.table .headed (entries ++ [(name, .table .headed es)]), [name]⟩ (.pair [] key value) =
      some ⟨.table .headed (entries ++ [(name, .table .headed (es ++ [(key, value)]))]),
        [name]⟩ := by
  have hset : (Node.table .headed es).setKey [] key value =
      some (.table .headed (es ++ [(key, value)])) := by
    simp [Node.setKey, Node.enter, Node.addKey, lookup_eq_none_of_not_mem hkey]
  rw [add, Node.enter, lookup_concat h]
  simp [Node.mayEnter, Node.enter, hset, setEntry_concat h]

/-- The lines of a text lead from one draft to another, whatever comes after them. -/
def Takes (draft : Draft) (text : List Char) (draft' : Draft) : Prop :=
  ∃ n ≤ text.length, ∀ more rest,
    lines? (n + more) draft (text ++ rest) = lines? more draft' rest

namespace Takes

variable {draft draft' draft'' : Draft} {text text' : List Char}

theorem nil : draft.Takes [] draft :=
  ⟨0, Nat.le_refl _, fun more rest => by rw [Nat.zero_add, List.nil_append]⟩

theorem append (h : draft.Takes text draft') (h' : draft'.Takes text' draft'') :
    draft.Takes (text ++ text') draft'' := by
  obtain ⟨n, hn, hread⟩ := h
  obtain ⟨n', hn', hread'⟩ := h'
  refine ⟨n + n', by rw [List.length_append]; omega, fun more rest => ?_⟩
  rw [List.append_assoc, Nat.add_assoc, hread, hread']

/-- One line is taken into the draft. -/
theorem line {line : Line} (hne : text ≠ [])
    (hskip : ∀ rest, skipBlanks (text ++ rest) = text ++ rest)
    (hline : ∀ rest, line? (text ++ rest) = some (line, rest))
    (hadd : draft.add line = some draft') : draft.Takes text draft' := by
  refine ⟨1, List.length_pos_of_ne_nil hne, fun more rest => ?_⟩
  obtain ⟨c, cs, rfl⟩ := List.exists_cons_of_ne_nil hne
  have hread := hline rest
  rw [Nat.add_comm, lines?, hskip]
  rw [List.cons_append] at hread ⊢
  simp [hread, hadd]

end Takes

end Draft

/-! ## Documents -/

/-- The table that a section stands for. -/
def Section.node (s : Section) : Node :=
  .table .headed (s.entries.map fun entry => (entry.1, entry.2.node))

/-- The document that sections stand for. -/
def document (sections : List Section) : Node :=
  .table .headed (sections.map fun s => (s.name, s.node))

/-- The section needs no quotes for its name and its keys, which are told apart, and its numbers are
in range. -/
structure Section.Valid (s : Section) : Prop where
  name : IsBareKey s.name
  entries : ∀ entry ∈ s.entries, IsBareKey entry.1 ∧ entry.2.InRange
  nodup : (s.entries.map Prod.fst).Nodup

/-- A section is valid by its keys and its values. -/
theorem Section.Valid.of_keys {name : String} {entries : List (String × Plain)}
    (keys : List String) (hkeys : entries.map Prod.fst = keys) (hname : IsBareKey name)
    (hbare : ∀ key ∈ keys, IsBareKey key) (hnodup : keys.Nodup)
    (hrange : ∀ entry ∈ entries, entry.2.InRange) : Section.Valid ⟨name, entries⟩ where
  name := hname
  entries entry hentry := ⟨hbare _ (hkeys ▸ List.mem_map_of_mem hentry), hrange entry hentry⟩
  nodup := hkeys ▸ hnodup

namespace Draft

variable {entries : List (String × Node)} {name : String}

/-- Entries are added to the table that was opened last. -/
theorem takes_entries (hname : name ∉ entries.map Prod.fst) : ∀ {rest : List (String × Plain)}
    (es : List (String × Node)), (∀ entry ∈ rest, IsBareKey entry.1 ∧ entry.2.InRange) →
    (es.map Prod.fst ++ rest.map Prod.fst).Nodup →
    Takes ⟨.table .headed (entries ++ [(name, .table .headed es)]), [name]⟩
      (rest.flatMap renderEntry)
      ⟨.table .headed (entries ++ [(name, .table .headed
        (es ++ rest.map fun entry => (entry.1, entry.2.node)))]), [name]⟩
  | [], es, _, _ => by
    rw [List.map_nil, List.append_nil]
    exact .nil
  | entry :: rest, es, hentries, hnodup => by
    rw [List.forall_mem_cons] at hentries
    rw [List.map_cons, List.append_cons] at hnodup
    have hkey : entry.1 ∉ es.map Prod.fst := not_mem_of_nodup hnodup
    have hline : Takes ⟨.table .headed (entries ++ [(name, .table .headed es)]), [name]⟩
        (renderEntry entry) ⟨.table .headed (entries ++ [(name, .table .headed
          (es ++ [(entry.1, entry.2.node)]))]), [name]⟩ := by
      refine .line ?_ (fun more => ?_) (line?_entry hentries.1.1 hentries.1.2)
        (add_pair hname hkey _)
      · simp [renderEntry]
      · simp only [renderEntry, List.append_assoc, hentries.1.1.skipBlanks_append]
    have hrest := takes_entries hname (es ++ [(entry.1, entry.2.node)]) hentries.2
      (by simpa using hnodup)
    rw [List.flatMap_cons, List.map_cons, List.append_cons es]
    exact hline.append hrest

/-- A section is added to the document. -/
theorem takes_section {s : Section} (h : s.Valid) (hname : s.name ∉ entries.map Prod.fst)
    (current : List String) :
    Takes ⟨.table .headed entries, current⟩ s.render
      ⟨.table .headed (entries ++ [(s.name, s.node)]), [s.name]⟩ := by
  have hheader : Takes ⟨.table .headed entries, current⟩ ('[' :: (s.name.toList ++ [']', '\n']))
      ⟨.table .headed (entries ++ [(s.name, .table .headed [])]), [s.name]⟩ :=
    .line (List.cons_ne_nil _ _) (fun rest => skipBlanks_cons (by decide) _)
      (line?_header h.name) (add_header hname current)
  have hentries := takes_entries hname [] h.entries h.nodup
  exact hheader.append hentries

/-- An empty line changes nothing. -/
theorem takes_break (draft : Draft) : Takes draft ['\n'] draft :=
  .line (List.cons_ne_nil _ _) (fun rest => skipBlanks_cons (by decide) _)
    (fun rest => rfl) rfl

/-- Sections are added to the document one after the other. -/
theorem takes_sections : ∀ {sections : List Section} (entries : List (String × Node))
    (current : List String), (∀ s ∈ sections, s.Valid) →
    (entries.map Prod.fst ++ sections.map Section.name).Nodup →
    ∃ current', Takes ⟨.table .headed entries, current⟩ (renderSections sections)
      ⟨.table .headed (entries ++ sections.map fun s => (s.name, s.node)), current'⟩
  | [], entries, current, _, _ => by
    rw [List.map_nil, List.append_nil]
    exact ⟨current, .nil⟩
  | s :: rest, entries, current, hvalid, hnodup => by
    rw [List.forall_mem_cons] at hvalid
    rw [List.map_cons, List.append_cons] at hnodup
    have hname : s.name ∉ entries.map Prod.fst := not_mem_of_nodup hnodup
    have hsection := takes_section hvalid.1 hname current
    obtain ⟨current', hrest⟩ := takes_sections (entries ++ [(s.name, s.node)]) [s.name]
      hvalid.2 (by simpa using hnodup)
    rw [List.map_cons, List.append_cons]
    cases rest with
    | nil => exact ⟨[s.name], by simpa [renderSections] using hsection⟩
    | cons next rest =>
      exact ⟨current', hsection.append ((takes_break _).append hrest)⟩

end Draft

/-- A document begins with a bracket, if with anything. -/
theorem skipMark_renderSections (sections : List Section) :
    skipMark (renderSections sections) = renderSections sections := by
  match sections with
  | [] => rfl
  | [_] => rfl
  | _ :: _ :: _ => rfl

/-- A document is read back from its sections. -/
theorem parse?_renderSections {sections : List Section} (h : ∀ s ∈ sections, s.Valid)
    (hnodup : (sections.map Section.name).Nodup) :
    parse? (String.ofList (renderSections sections)) = some (document sections) := by
  obtain ⟨current, n, hn, hread⟩ := Draft.takes_sections [] [] h hnodup
  obtain ⟨more, hmore⟩ : ∃ more, (renderSections sections).length + 1 = n + (more + 1) :=
    ⟨(renderSections sections).length - n, by omega⟩
  have hlines := hread (more + 1) []
  rw [List.append_nil] at hlines
  rw [parse?, String.toList_ofList, skipMark_renderSections, hmore, hlines]
  rfl

end Toml

end Sidecar
