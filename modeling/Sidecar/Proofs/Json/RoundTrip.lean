import Sidecar.Proofs.Json.Lexeme

/-!
# What is written is read back

A value is written as a sequence of tokens (`Json.Value.tokens`), and the grammar turns exactly
these tokens into the value again, inside whatever frames are open (`Json.accept_tokens`). With the
reading of single tokens this gives `Json.parse?_of_spaced`: a text that consists of a value's
tokens with any white space around them is read as that value. The text the library writes has no
white space at all (`Json.parse?_print`).
-/

namespace Sidecar

namespace Json

/-! ## Values as tokens -/

mutual

/-- The tokens of a value. -/
def Value.tokens : Value → List Lexical
  | .array [] => [.openArray, .closeArray]
  | .array (item :: items) => .openArray :: (item.tokens ++ itemTokens items)
  | .object [] => [.openObject, .closeObject]
  | .object (member :: members) => .openObject :: (memberTokens member ++ membersTokens members)
  | .null => [.scalar .null]
  | .bool b => [.scalar (.bool b)]
  | .number n => [.scalar (.number n)]
  | .string pieces => [.scalar (.string pieces)]

/-- The tokens of the items after the first, and the end of their array. -/
def itemTokens : List Value → List Lexical
  | [] => [.closeArray]
  | item :: items => .comma :: (item.tokens ++ itemTokens items)

/-- The tokens of a key, a colon and a value. -/
def memberTokens : List Piece × Value → List Lexical
  | (key, value) => .scalar (.string key) :: .colon :: value.tokens

/-- The tokens of the members after the first, and the end of their object. -/
def membersTokens : List (List Piece × Value) → List Lexical
  | [] => [.closeObject]
  | member :: members => .comma :: (memberTokens member ++ membersTokens members)

end

mutual

/-- A value is written as its tokens, one after the other. -/
theorem Value.print_eq_flatMap : ∀ v : Value, v.print = v.tokens.flatMap Lexical.print
  | .null | .bool _ | .number _ | .string _ => by simp [Value.tokens, Lexical.print]
  | .array [] => by simp [Value.tokens, Value.print, Lexical.print]
  | .array (item :: items) => by
    simp [Value.tokens, Value.print, Lexical.print, item.print_eq_flatMap,
      printItems_eq_flatMap items]
  | .object [] => by simp [Value.tokens, Value.print, Lexical.print]
  | .object (member :: members) => by
    simp [Value.tokens, Value.print, Lexical.print, printMember_eq_flatMap member,
      printMembers_eq_flatMap members]

theorem printItems_eq_flatMap :
    ∀ items : List Value, printItems items = (itemTokens items).flatMap Lexical.print
  | [] => by simp [itemTokens, printItems, Lexical.print]
  | item :: items => by
    simp [itemTokens, printItems, Lexical.print, item.print_eq_flatMap, printItems_eq_flatMap items]

theorem printMember_eq_flatMap :
    ∀ member : List Piece × Value, printMember member = (memberTokens member).flatMap Lexical.print
  | (key, value) => by
    simp [memberTokens, printMember, Lexical.print, Value.print, value.print_eq_flatMap]

theorem printMembers_eq_flatMap : ∀ members : List (List Piece × Value),
    printMembers members = (membersTokens members).flatMap Lexical.print
  | [] => by simp [membersTokens, printMembers, Lexical.print]
  | member :: members => by
    simp [membersTokens, printMembers, Lexical.print, printMember_eq_flatMap member,
      printMembers_eq_flatMap members]

end

/-! ## The grammar -/

/-- The first token of a value does not close an array. -/
theorem Value.tokens_eq_cons (v : Value) :
    ∃ token tokens, v.tokens = token :: tokens ∧ token ≠ .closeArray := by
  cases v with
  | array items => cases items <;> exact ⟨_, _, by rw [tokens], by simp⟩
  | object members => cases members <;> exact ⟨_, _, by rw [tokens], by simp⟩
  | null | bool | number | string => exact ⟨_, _, by rw [tokens], by simp⟩

/-- The first item of an array is read like the others. -/
theorem Partial.accept_firstItem {token : Lexical} (h : token ≠ .closeArray) (frames : List Frame) :
    (Partial.firstItem frames).accept token =
      (Partial.value (.item [] :: frames)).accept token := by
  cases token <;> first | rfl | exact absurd rfl h

/-- The tokens of a first item lead where they lead from any other place. -/
theorem accept_firstItem_tokens (v : Value) (frames : List Frame) :
    v.tokens.foldlM Partial.accept (.firstItem frames) =
      v.tokens.foldlM Partial.accept (.value (.item [] :: frames)) := by
  obtain ⟨token, tokens, heq, hne⟩ := v.tokens_eq_cons
  rw [heq, List.foldlM_cons, List.foldlM_cons, Partial.accept_firstItem hne]

mutual

/-- The tokens of a value lead from where a value is expected to where it is complete. -/
theorem accept_tokens : ∀ (v : Value) (frames : List Frame),
    v.tokens.foldlM Partial.accept (.value frames) = some (.deliver v frames)
  | .null, _ | .bool _, _ | .number _, _ | .string _, _ => by simp [Value.tokens, Partial.accept]
  | .array [], _ => by simp [Value.tokens, Partial.accept]
  | .array (item :: items), frames => by
    simp only [Value.tokens, List.foldlM_cons, Partial.accept, Option.bind_eq_bind,
      Option.bind_some, List.foldlM_append, accept_firstItem_tokens,
      accept_tokens item (.item [] :: frames), Partial.deliver,
      accept_itemTokens items [item] frames]
    rfl
  | .object [], _ => by simp [Value.tokens, Partial.accept]
  | .object (member :: members), frames => by
    simp only [Value.tokens, List.foldlM_cons, Partial.accept, Option.bind_eq_bind,
      Option.bind_some, List.foldlM_append]
    rw [accept_memberTokens member [] frames _ fun _ => rfl, Option.bind_some,
      accept_membersTokens members [member] frames]
    rfl

theorem accept_itemTokens : ∀ (items before : List Value) (frames : List Frame),
    (itemTokens items).foldlM Partial.accept (.afterItem before frames) =
      some (.deliver (.array (before.reverse ++ items)) frames)
  | [], before, frames => by simp [itemTokens, Partial.accept]
  | item :: items, before, frames => by
    simp only [itemTokens, List.foldlM_cons, Partial.accept, Option.bind_eq_bind,
      Option.bind_some, List.foldlM_append, accept_tokens item (.item before :: frames),
      Partial.deliver, accept_itemTokens items (item :: before) frames]
    simp

theorem accept_memberTokens : ∀ (member : List Piece × Value) (before : List (List Piece × Value))
    (frames : List Frame) (state : Partial)
    (_ : ∀ key, state.accept (.scalar (.string key)) = some (.afterKey before key frames)),
    (memberTokens member).foldlM Partial.accept state =
      some (.afterMember (member :: before) frames)
  | (key, value), before, frames, state, hkey => by
    simp only [memberTokens, List.foldlM_cons, hkey, Option.bind_eq_bind, Option.bind_some]
    show value.tokens.foldlM Partial.accept (.value (.member before key :: frames)) = _
    rw [accept_tokens value (.member before key :: frames)]
    rfl

theorem accept_membersTokens : ∀ (members before : List (List Piece × Value)) (frames : List Frame),
    (membersTokens members).foldlM Partial.accept (.afterMember before frames) =
      some (.deliver (.object (before.reverse ++ members)) frames)
  | [], before, frames => by simp [membersTokens, Partial.accept]
  | member :: members, before, frames => by
    simp only [membersTokens, List.foldlM_cons, Partial.accept, Option.bind_eq_bind,
      Option.bind_some, List.foldlM_append]
    rw [accept_memberTokens member before frames _ fun _ => rfl, Option.bind_some,
      accept_membersTokens members (member :: before) frames]
    simp

end

/-! ## Reading a text -/

/-- The value is one that is written for a message: its strings do not end themselves, and its
numbers are natural. -/
inductive Value.Written : Value → Prop
  | null : Written .null
  | bool (b : Bool) : Written (.bool b)
  | nat (n : Nat) : Written (.number (ofNat n))
  | string {pieces : List Piece} (h : ∀ p ∈ pieces, p.Unquoted) : Written (.string pieces)
  | array {items : List Value} (h : ∀ item ∈ items, item.Written) : Written (.array items)
  | object {members : List (List Piece × Value)}
      (hkeys : ∀ m ∈ members, ∀ p ∈ m.1, p.Unquoted) (h : ∀ m ∈ members, m.2.Written) :
      Written (.object members)

/-- The tokens of further items are written if those of the items are. -/
theorem written_itemTokens {items : List Value}
    (h : ∀ item ∈ items, ∀ t ∈ item.tokens, t.Written) : ∀ t ∈ itemTokens items, t.Written := by
  induction items with
  | nil => simpa [itemTokens] using Lexical.Written.closeArray
  | cons item items ih =>
    simp only [itemTokens, List.mem_cons, List.mem_append]
    rintro t (rfl | ht | ht)
    · exact .comma
    · exact h item List.mem_cons_self t ht
    · exact ih (fun item' hitem' => h item' (List.mem_cons_of_mem _ hitem')) t ht

/-- The tokens of a member are written if its key and those of its value are. -/
theorem written_memberTokens {member : List Piece × Value} (hkey : ∀ p ∈ member.1, p.Unquoted)
    (h : ∀ t ∈ member.2.tokens, t.Written) : ∀ t ∈ memberTokens member, t.Written := by
  obtain ⟨key, value⟩ := member
  simp only [memberTokens, List.mem_cons]
  rintro t (rfl | rfl | ht)
  · exact .string hkey
  · exact .colon
  · exact h t ht

/-- The tokens of further members are written if those of the members are. -/
theorem written_membersTokens {members : List (List Piece × Value)}
    (h : ∀ m ∈ members, ∀ t ∈ memberTokens m, t.Written) :
    ∀ t ∈ membersTokens members, t.Written := by
  induction members with
  | nil => simpa [membersTokens] using Lexical.Written.closeObject
  | cons m members ih =>
    simp only [membersTokens, List.mem_cons, List.mem_append]
    rintro t (rfl | ht | ht)
    · exact .comma
    · exact h m List.mem_cons_self t ht
    · exact ih (fun m' hm' => h m' (List.mem_cons_of_mem _ hm')) t ht

/-- All tokens of a value that is written are. -/
theorem Value.Written.tokens {v : Value} (h : v.Written) : ∀ t ∈ v.tokens, t.Written := by
  induction h with
  | null => simpa [Value.tokens] using Lexical.Written.null
  | bool b => simpa [Value.tokens] using Lexical.Written.bool b
  | nat n => simpa [Value.tokens] using Lexical.Written.nat n
  | string h => simpa [Value.tokens] using Lexical.Written.string h
  | @array items _ ih =>
    have hitems := written_itemTokens ih
    cases items with
    | nil =>
      simpa [Value.tokens] using And.intro Lexical.Written.openArray Lexical.Written.closeArray
    | cons item items =>
      simp only [Value.tokens, List.mem_cons]
      rintro t (rfl | ht)
      · exact .openArray
      · exact hitems t (by rw [itemTokens]; exact List.mem_cons_of_mem _ ht)
  | @object members hkeys _ ih =>
    have hmembers := written_membersTokens fun m hm => written_memberTokens (hkeys m hm) (ih m hm)
    cases members with
    | nil =>
      simpa [Value.tokens] using And.intro Lexical.Written.openObject Lexical.Written.closeObject
    | cons m members =>
      simp only [Value.tokens, List.mem_cons]
      rintro t (rfl | ht)
      · exact .openObject
      · exact hmembers t (by rw [membersTokens]; exact List.mem_cons_of_mem _ ht)

/-- A text that consists of the tokens of a value, with any white space around them, is read as that
value. -/
theorem parse?_of_spaced {v : Value} (hv : v.Written) {text : Bytes} (h : Spaced v.tokens text) :
    parse? text = some v := by
  obtain ⟨reader, hread, hstands⟩ :=
    (Reader.standsAt_none (.value [])).read_spaced h hv.tokens (accept_tokens v [])
  unfold parse?
  rw [Reader.start, hread]
  show reader.finish = some v
  rw [Reader.finish, hstands.flush]
  rfl

/-- A value is read as it was written. -/
theorem parse?_print {v : Value} (h : v.Written) : parse? v.print = some v := by
  refine parse?_of_spaced h ?_
  rw [v.print_eq_flatMap]
  exact spaced_flatMap_print v.tokens

end Json

end Sidecar
