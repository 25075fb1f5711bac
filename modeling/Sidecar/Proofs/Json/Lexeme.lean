import Sidecar.Json.Print
import Sidecar.Json.Scan
import Sidecar.Proofs.Json.Text

/-!
# Reading one token

A reader has come to a state of the grammar once it stands between two tokens
(`Json.Reader.StandsAt`). A number or a word ends only with the byte after it, so a reader that has
read all its bytes stands already where it leads to, and the next byte must be one that ends it.
The grammar helps: after a scalar it allows no other, so what follows is a mark or white space.

`Json.Reader.StandsAt.read_token` reads one token as it is written, and
`Json.Reader.StandsAt.read_spaced` a sequence of tokens with any white space around them.
-/

namespace Sidecar

namespace Json

/-! ## Decimal digits -/

/-- The digits of a number after its last one is split off. -/
theorem digits_eq (n : Nat) :
    digits n = if n < 10 then [n] else digits (n / 10) ++ [n % 10] := by
  have hdigit : ∀ d < 10, d.digitChar.toNat - 48 = d := by decide
  unfold digits
  rw [Nat.toDigits_eq_if (by decide)]
  split
  next h => simp [hdigit n h]
  next => simp [hdigit (n % 10) (Nat.mod_lt n (by decide))]

theorem digits_ne_nil (n : Nat) : digits n ≠ [] := by
  rw [digits_eq]
  split <;> simp

/-- Digits make up their number again. -/
theorem ofDigits_digits (n : Nat) : ofDigits (digits n) = n := by
  induction n using Nat.strongRecOn with
  | _ n ih =>
    rw [digits_eq]
    split
    next => simp [ofDigits]
    next h =>
      have hprev := ih (n / 10) (by omega)
      unfold ofDigits at hprev ⊢
      rw [List.foldl_append, hprev]
      simp only [List.foldl_cons, List.foldl_nil]
      omega

/-- Only the number zero begins with the digit zero. -/
theorem digits_head {n : Nat} {ds : List Nat} (h : digits n = 0 :: ds) : ds = [] := by
  induction n using Nat.strongRecOn generalizing ds with
  | _ n ih =>
    rw [digits_eq] at h
    split at h
    next => exact (List.cons.inj h).2.symm
    next hn =>
      cases hprev : digits (n / 10) with
      | nil => exact absurd hprev (digits_ne_nil _)
      | cons d rest =>
        rw [hprev] at h
        obtain rfl := (List.cons.inj h).1
        obtain rfl := ih (n / 10) (by omega) hprev
        have hzero := ofDigits_digits (n / 10)
        rw [hprev] at hzero
        simp only [ofDigits, List.foldl_cons, List.foldl_nil] at hzero
        omega

theorem decimal_ne_nil (n : Nat) : decimal n ≠ [] := by
  simp [decimal, Nat.toDigits_ne_nil]

/-- A number is written with digits only. -/
theorem isDigit_of_mem_decimal {n : Nat} {b : UInt8} (h : b ∈ decimal n) : isDigit b = true := by
  obtain ⟨c, hc, rfl⟩ := List.mem_map.1 h
  have hdigit := Nat.isDigit_of_mem_toDigits (by decide) (by decide) hc
  simp only [Char.isDigit, Bool.and_eq_true, decide_eq_true_eq] at hdigit
  obtain ⟨hlo, hhi⟩ := hdigit
  have hlo' : 48 ≤ c.toNat := hlo
  have hhi' : c.toNat ≤ 57 := hhi
  simp only [isDigit, byte, Bool.and_eq_true, decide_eq_true_eq, UInt8.le_iff_toNat_le,
    UInt8.toNat_ofNat']
  simp
  omega

/-- The digits that are written are those of the number. -/
theorem takeDigits_decimal (n : Nat) : takeDigits (decimal n) = (digits n, []) := by
  have hall : ∀ bs : Bytes, (∀ b ∈ bs, isDigit b = true) →
      takeDigits bs = (bs.map fun b => b.toNat - 48, []) := by
    intro bs hbs
    induction bs with
    | nil => rfl
    | cons b bs ih =>
      have htail := ih fun b' hb' => hbs b' (List.mem_cons_of_mem _ hb')
      simp only [takeDigits, hbs b List.mem_cons_self, if_true, htail, List.map_cons]
  rw [hall _ fun b => isDigit_of_mem_decimal]
  simp only [digits, decimal, List.map_map, Prod.mk.injEq, and_true]
  refine List.map_congr_left fun c hc => ?_
  have hbyte := isDigit_of_mem_decimal (n := n) (List.mem_map_of_mem (f := byte) hc)
  have hdigit := Nat.isDigit_of_mem_toDigits (by decide) (by decide) hc
  simp only [Char.isDigit, Bool.and_eq_true, decide_eq_true_eq] at hdigit
  have hhi : c.toNat ≤ 57 := hdigit.2
  simp only [Function.comp, byte, UInt8.toNat_ofNat']
  omega

/-- A number is read as it was written. -/
theorem number?_decimal (n : Nat) : number? (decimal n) = some (ofNat n) := by
  have hwhole : whole? (decimal n) = some (n, []) := by
    have hof := ofDigits_digits n
    unfold whole?
    rw [takeDigits_decimal]
    split
    next h => exact absurd (congrArg Prod.fst h) (digits_ne_nil n)
    next h =>
      have := digits_head (congrArg Prod.fst h)
      cases this
    next h =>
      obtain ⟨rfl, rfl⟩ := Prod.mk.inj h
      rw [hof]
  have hsign : ∀ rest, decimal n ≠ 45 :: rest := by
    intro rest h
    have := isDigit_of_mem_decimal (h ▸ List.mem_cons_self : (45 : UInt8) ∈ decimal n)
    exact absurd this (by decide)
  unfold number?
  split
  next heq =>
    split at heq
    next h => exact absurd h (hsign _)
    next =>
      cases heq
      rw [hwhole]
      rfl

/-! ## Strings -/

/-- The digit of a code unit is read as it was written. -/
theorem hexValue?_hexDigit : ∀ d < 16, hexValue? (byte (hexDigit d)) = some d := by decide

/-- The letter of an escape is read as the code unit it was written for. -/
theorem escape?_of_escapeLetter? {code : UInt16} {letter : UInt8}
    (h : escapeLetter? code = some letter) : letter ≠ 117 ∧ escape? letter = some code := by
  unfold escapeLetter? at h
  repeat' split at h
  all_goals first
    | cases h; subst code; decide
    | cases h

namespace Reader

/-- A piece is read as it was written. -/
theorem read_piece {p : Piece} (h : p.Unquoted) (before : List Piece) (state : Partial) :
    p.print.foldlM read ⟨.string before, state⟩ = some ⟨.string (p :: before), state⟩ := by
  cases p with
  | raw b =>
    obtain ⟨hquote, hbackslash⟩ := h
    simp [Piece.print, read, hquote, hbackslash]
  | unit code =>
    cases hletter : escapeLetter? code with
    | some letter =>
      obtain ⟨hne, hescape⟩ := escape?_of_escapeLetter? hletter
      simp [Piece.print, hletter, read, hne, hescape]
    | none =>
      have hlt : code.toNat < 65536 := code.toNat_lt
      have hcode : UInt16.ofNat ((((code.toNat / 0x1000 * 16 + code.toNat / 0x100 % 16) * 16) +
          code.toNat / 0x10 % 16) * 16 + code.toNat % 16) = code := by
        rw [← UInt16.toNat_inj, UInt16.toNat_ofNat']
        omega
      have h₁ := hexValue?_hexDigit (code.toNat / 0x1000) (by omega)
      have h₂ := hexValue?_hexDigit (code.toNat / 0x100 % 16) (by omega)
      have h₃ := hexValue?_hexDigit (code.toNat / 0x10 % 16) (by omega)
      have h₄ := hexValue?_hexDigit (code.toNat % 16) (by omega)
      simp [Piece.print, hletter, fourHex, read, h₁, h₂, h₃, h₄, hcode, -UInt16.ofNat_add,
        -UInt16.ofNat_mul]

/-- The pieces of a string are read as they were written. -/
theorem read_pieces {pieces : List Piece} (h : ∀ p ∈ pieces, p.Unquoted) (before : List Piece)
    (state : Partial) :
    (pieces.flatMap Piece.print).foldlM read ⟨.string before, state⟩ =
      some ⟨.string (pieces.reverse ++ before), state⟩ := by
  induction pieces generalizing before with
  | nil => rfl
  | cons p pieces ih =>
    rw [List.flatMap_cons, List.foldlM_append, read_piece (h p List.mem_cons_self)]
    simp [ih fun q hq => h q (List.mem_cons_of_mem _ hq)]

/-- A string is read as it was written. -/
theorem read_string {pieces : List Piece} (h : ∀ p ∈ pieces, p.Unquoted) (state : Partial) :
    (pieces.flatMap Piece.print ++ [34]).foldlM read ⟨.string [], state⟩ =
      emit state (.scalar (.string pieces)) := by
  rw [List.foldlM_append, read_pieces h]
  simp [read]

end Reader

/-! ## Tokens -/

/-- How a token is written. -/
def Lexical.print : Lexical → Bytes
  | .openArray => [0x5b]
  | .closeArray => [0x5d]
  | .openObject => [0x7b]
  | .closeObject => [0x7d]
  | .comma => [44]
  | .colon => [58]
  | .scalar v => v.print

/-- The token is one that is written for a message: a mark, a word, a string whose pieces do not end
it, or a natural number. -/
inductive Lexical.Written : Lexical → Prop
  | openArray : Written .openArray
  | closeArray : Written .closeArray
  | openObject : Written .openObject
  | closeObject : Written .closeObject
  | comma : Written .comma
  | colon : Written .colon
  | null : Written (.scalar .null)
  | bool (b : Bool) : Written (.scalar (.bool b))
  | nat (n : Nat) : Written (.scalar (.number (ofNat n)))
  | string {pieces : List Piece} (h : ∀ p ∈ pieces, p.Unquoted) : Written (.scalar (.string pieces))

/-- The text is the tokens as they are written, with any white space around them. -/
inductive Spaced : List Lexical → Bytes → Prop
  | nil {ws : Bytes} (h : ∀ b ∈ ws, isSpace b = true) : Spaced [] ws
  | cons {ws : Bytes} {token : Lexical} {tokens : List Lexical} {rest : Bytes}
      (h : ∀ b ∈ ws, isSpace b = true) (hrest : Spaced tokens rest) :
      Spaced (token :: tokens) (ws ++ token.print ++ rest)

/-- Without any white space. -/
theorem spaced_flatMap_print (tokens : List Lexical) :
    Spaced tokens (tokens.flatMap Lexical.print) := by
  induction tokens with
  | nil => exact .nil nofun
  | cons token tokens ih => exact @Spaced.cons [] _ _ _ nofun ih

/-- A scalar is followed by a mark. -/
theorem Partial.accept_scalar_eq_none {state state' : Partial} {v : Value}
    (h : state.accept (.scalar v) = some state') (w : Value) :
    state'.accept (.scalar w) = none := by
  have hdeliver : ∀ frames, (deliver v frames).accept (.scalar w) = none := by
    intro frames
    cases frames with
    | nil => rfl
    | cons frame frames => cases frame <;> rfl
  cases state with
  | value frames =>
    obtain rfl := Option.some.inj h
    exact hdeliver frames
  | firstItem frames =>
    obtain rfl := Option.some.inj h
    exact hdeliver (.item [] :: frames)
  | firstKey | nextKey =>
    cases v with
    | string key =>
      obtain rfl := Option.some.inj h
      rfl
    | null | bool | number | array | object => cases h
  | afterItem | afterKey | afterMember | complete => cases h

namespace Reader

/-- The reader has come to a state of the grammar and is between two tokens. A number or a word that
may still go on is told from what follows by the next byte, and no scalar follows it. -/
structure StandsAt (reader : Reader) (state : Partial) : Prop where
  flush : reader.flush = some state
  read : ∀ b, (isNumberByte b = false ∧ isLetter b = false ∨ reader = ⟨.none, state⟩) →
    reader.read b = fresh state b
  next : reader = ⟨.none, state⟩ ∨ ∀ v, state.accept (.scalar v) = none

/-- A reader with no lexeme left over stands at its state. -/
theorem standsAt_none (state : Partial) : StandsAt ⟨.none, state⟩ state :=
  ⟨rfl, fun _ _ => rfl, .inl rfl⟩

/-- A number that was read stands where it leads to. -/
theorem standsAt_number {before : Bytes} {n : Number} {state state' : Partial}
    (hn : number? before.reverse = some n) (h : state.accept (.scalar (.number n)) = some state') :
    StandsAt ⟨.number before, state⟩ state' := by
  have hflush : flush ⟨.number before, state⟩ = some state' := by
    simp [Reader.flush, hn, h]
  refine ⟨hflush, ?_, .inr (Partial.accept_scalar_eq_none h)⟩
  rintro b (⟨hb, -⟩ | heq)
  · simp [Reader.read, hb, hflush]
  · cases heq

/-- A word that was read stands where it leads to. -/
theorem standsAt_word {before : Bytes} {v : Value} {state state' : Partial}
    (hv : word? before.reverse = some v) (h : state.accept (.scalar v) = some state') :
    StandsAt ⟨.word before, state⟩ state' := by
  have hflush : flush ⟨.word before, state⟩ = some state' := by
    simp [Reader.flush, hv, h]
  refine ⟨hflush, ?_, .inr (Partial.accept_scalar_eq_none h)⟩
  rintro b (⟨-, hb⟩ | heq)
  · simp [Reader.read, hb, hflush]
  · cases heq

/-- A digit begins a number. -/
theorem fresh_digit {b : UInt8} (h : isDigit b = true) (state : Partial) :
    fresh state b = some ⟨.number [b], state⟩ := by
  have hlt : 48 ≤ b.toNat ∧ b.toNat ≤ 57 := by
    simpa [isDigit, UInt8.le_iff_toNat_le] using h
  have hspace : isSpace b = false := by
    simp only [isSpace, Bool.or_eq_false_iff, beq_eq_false_iff_ne, ne_eq]
    refine ⟨⟨⟨?_, ?_⟩, ?_⟩, ?_⟩ <;> rintro rfl <;> simp at hlt
  have hquote : b ≠ 34 := by
    rintro rfl
    simp at hlt
  simp [fresh, hspace, hquote, h]

/-- The bytes of a number after its first one. -/
theorem read_digits {bytes : Bytes} (h : ∀ b ∈ bytes, isDigit b = true) (before : Bytes)
    (state : Partial) :
    bytes.foldlM read ⟨.number before, state⟩ =
      some ⟨.number (bytes.reverse ++ before), state⟩ := by
  induction bytes generalizing before with
  | nil => rfl
  | cons b bytes ih =>
    have hb : isNumberByte b = true := by simp [isNumberByte, h b List.mem_cons_self]
    simp [List.foldlM_cons, Reader.read, hb, ih fun c hc => h c (List.mem_cons_of_mem _ hc)]

namespace StandsAt

variable {reader : Reader} {state state' : Partial}

/-- White space changes nothing. -/
theorem read_space (h : reader.StandsAt state) {ws : Bytes} (hws : ∀ b ∈ ws, isSpace b = true) :
    ∃ reader', ws.foldlM Reader.read reader = some reader' ∧ reader'.StandsAt state := by
  induction ws generalizing reader with
  | nil => exact ⟨reader, rfl, h⟩
  | cons b ws ih =>
    have hb := hws b List.mem_cons_self
    have hends : isNumberByte b = false ∧ isLetter b = false := by
      revert hb
      simp only [isSpace, Bool.or_eq_true, beq_iff_eq]
      rintro (((rfl | rfl) | rfl) | rfl) <;> decide
    obtain ⟨reader', hread, hstands⟩ :=
      ih (standsAt_none state) fun c hc => hws c (List.mem_cons_of_mem _ hc)
    refine ⟨reader', ?_, hstands⟩
    rw [List.foldlM_cons, h.read b (.inl hends)]
    simp only [fresh, hb, if_true]
    exact hread

/-- A mark is read as the token it is. -/
theorem read_mark (h : reader.StandsAt state) {token : Lexical} {b : UInt8}
    (hends : isNumberByte b = false ∧ isLetter b = false)
    (hfresh : fresh state b = emit state token) (haccept : state.accept token = some state') :
    ∃ reader', [b].foldlM Reader.read reader = some reader' ∧ reader'.StandsAt state' := by
  refine ⟨⟨.none, state'⟩, ?_, standsAt_none state'⟩
  simp [h.read b (.inl hends), hfresh, emit, haccept]

/-- A token is read as it was written. -/
theorem read_token (h : reader.StandsAt state) {token : Lexical} (hwritten : token.Written)
    (haccept : state.accept token = some state') :
    ∃ reader', token.print.foldlM Reader.read reader = some reader' ∧ reader'.StandsAt state' := by
  have hnone : ∀ v, token = .scalar v → reader = ⟨.none, state⟩ := by
    rintro v rfl
    rcases h.next with hnone | hno
    · exact hnone
    · rw [hno v] at haccept
      cases haccept
  cases hwritten with
  | openArray | closeArray | openObject | closeObject | comma | colon =>
    exact h.read_mark (by decide) rfl haccept
  | null =>
    rw [hnone _ rfl]
    exact ⟨_, rfl, standsAt_word (v := .null) rfl haccept⟩
  | bool b =>
    rw [hnone _ rfl]
    cases b
    · exact ⟨_, rfl, standsAt_word (v := .bool false) rfl haccept⟩
    · exact ⟨_, rfl, standsAt_word (v := .bool true) rfl haccept⟩
  | nat n =>
    rw [hnone _ rfl]
    cases hdigits : decimal n with
    | nil => exact absurd hdigits (decimal_ne_nil n)
    | cons b bytes =>
      have hall : ∀ c ∈ b :: bytes, isDigit c = true := fun c hc =>
        isDigit_of_mem_decimal (hdigits ▸ hc)
      have hprint : (ofNat n).print = b :: bytes := by simp [Number.print, ofNat, hdigits]
      have hnumber : number? (bytes.reverse ++ [b]).reverse = some (ofNat n) := by
        rw [List.reverse_append, List.reverse_reverse, List.reverse_singleton,
          List.singleton_append, ← hdigits]
        exact number?_decimal n
      refine ⟨_, ?_, standsAt_number hnumber haccept⟩
      rw [Lexical.print, Value.print, hprint, List.foldlM_cons, Reader.read,
        fresh_digit (hall b List.mem_cons_self)]
      exact read_digits (fun c hc => hall c (List.mem_cons_of_mem _ hc)) [b] state
  | string hpieces =>
    rw [hnone _ rfl]
    refine ⟨_, ?_, standsAt_none state'⟩
    rw [Lexical.print, Value.print, printString, List.foldlM_cons]
    show (_ ++ [34]).foldlM Reader.read ⟨.string [], state⟩ = _
    rw [read_string hpieces, emit, haccept]
    rfl

/-- Tokens are read as they were written, whatever white space is between them. -/
theorem read_spaced (h : reader.StandsAt state) {tokens : List Lexical} {text : Bytes}
    (htext : Spaced tokens text) (hwritten : ∀ t ∈ tokens, t.Written)
    (haccept : tokens.foldlM Partial.accept state = some state') :
    ∃ reader', text.foldlM Reader.read reader = some reader' ∧ reader'.StandsAt state' := by
  induction htext generalizing reader state with
  | nil hws =>
    obtain rfl := Option.some.inj haccept
    exact h.read_space hws
  | @cons ws token tokens rest hws hrest ih =>
    rw [List.foldlM_cons, Option.bind_eq_bind, Option.bind_eq_some_iff] at haccept
    obtain ⟨state₁, htoken, htokens⟩ := haccept
    obtain ⟨reader₁, hread₁, hstands₁⟩ := h.read_space hws
    obtain ⟨reader₂, hread₂, hstands₂⟩ :=
      hstands₁.read_token (hwritten _ List.mem_cons_self) htoken
    obtain ⟨reader₃, hread₃, hstands₃⟩ :=
      ih hstands₂ (fun t ht => hwritten t (List.mem_cons_of_mem _ ht)) htokens
    refine ⟨reader₃, ?_, hstands₃⟩
    rw [List.foldlM_append, List.foldlM_append, hread₁]
    simp only [Option.bind_eq_bind, Option.bind_some, hread₂, hread₃]

end StandsAt

end Reader

end Json

end Sidecar
