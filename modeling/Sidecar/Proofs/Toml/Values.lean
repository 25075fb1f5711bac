import Mathlib.Data.List.Basic
import Mathlib.Data.List.TakeDrop
import Mathlib.Data.List.TakeWhile
import Sidecar.Proofs.Json.Lexeme
import Sidecar.Proofs.Toml.Strings
import Sidecar.Toml.Parse

/-!
# Values are read as they were written

A number or a word is a run of characters that ends with the line, and what it means is decided from
the whole run (`Toml.takeRun_append`). The digits of a natural number are no date, no time of day
and no number with a point, so they are read as the integer, which must be in range
(`Toml.scalar?_toDigits`).

Each plain value stands for a node (`Toml.Plain.node`) and is read back as it
(`Toml.Plain.value?_render`).
-/

namespace Sidecar

namespace Toml

/-! ## Runs -/

/-- Characters of a kind are split off before one that is not. -/
theorem span_append {p : Char → Bool} {cs : List Char} (h : ∀ c ∈ cs, p c = true) {c : Char}
    (hc : p c = false) (rest : List Char) : (cs ++ c :: rest).span p = (cs, c :: rest) := by
  rw [List.span_eq_takeWhile_dropWhile, List.takeWhile_append_of_pos h,
    List.dropWhile_append_of_pos h, List.takeWhile_cons_of_neg (by simp [hc]),
    List.dropWhile_cons_of_neg (by simp [hc]), List.append_nil]

/-- A run ends with the line. -/
theorem takeRun_append {run : List Char} (h : ∀ c ∈ run, inRun c = true) (rest : List Char) :
    takeRun (run ++ '\n' :: rest) = (run, '\n' :: rest) := by
  rw [takeRun, span_append h (by decide)]
  simp only
  split
  next heq => cases heq
  next => rfl

/-- A value that is neither quoted nor bracketed is read from its run. -/
theorem value?_run {depth : Nat} {run : List Char} (h : ∀ c ∈ run, inRun c = true)
    (rest : List Char) :
    value? depth (run ++ '\n' :: rest) = (scalar? run).map fun node => (node, '\n' :: rest) := by
  have hhead : ∀ c r, inRun c = false → c ≠ '\n' → run ++ '\n' :: rest ≠ c :: r := by
    intro c r hc hbreak heq
    cases run with
    | nil => exact hbreak (List.cons.inj heq).1.symm
    | cons d run =>
      rw [← (List.cons.inj heq).1, h d List.mem_cons_self] at hc
      cases hc
  rw [value?, takeRun_append h]
  · exact fun r => hhead _ r (by decide) (by decide)
  · exact fun r => hhead _ r (by decide) (by decide)
  · exact fun r => hhead _ r (by decide) (by decide)
  · exact fun r => hhead _ r (by decide) (by decide)

/-! ## Natural numbers -/

section Digits

variable {ds : List Char}

/-- No other character is among digits. -/
theorem not_mem_of_digits (h : ∀ c ∈ ds, c.isDigit = true) {c : Char} (hc : c.isDigit = false) :
    c ∉ ds := by
  intro hmem
  rw [h c hmem] at hc
  cases hc

theorem isDigitRun_of_digits : ∀ {ds : List Char}, (∀ c ∈ ds, c.isDigit = true) → ds ≠ [] →
    isDigitRun Char.isDigit ds = true
  | [], _, hne => absurd rfl hne
  | [c], h, _ => h c List.mem_cons_self
  | c :: d :: ds, h, _ => by
    rw [List.forall_mem_cons] at h
    have hd : d ≠ '_' := by
      rintro rfl
      exact not_mem_of_digits h.2 (by decide) List.mem_cons_self
    rw [isDigitRun, h.1, isDigitRun_of_digits h.2 (List.cons_ne_nil _ _)]
    · rfl
    · exact List.cons_ne_nil _ _
    · exact fun r heq => hd (List.cons.inj heq).1

theorem splitSign_of_digits (h : ∀ c ∈ ds, c.isDigit = true) : splitSign ds = (false, ds) := by
  unfold splitSign
  split
  next => exact absurd List.mem_cons_self (not_mem_of_digits h (by decide))
  next => exact absurd List.mem_cons_self (not_mem_of_digits h (by decide))
  next => rfl

/-- Digits are no date and no time of day. -/
theorem datetime?_of_digits (h : ∀ c ∈ ds, c.isDigit = true) : datetime? ds = none := by
  have hdate : date? ds = none := by
    unfold date?
    split
    next => exact absurd (by simp) (not_mem_of_digits h (c := '-') (by decide))
    next => rfl
  have htime : time? ds = none := by
    unfold time?
    split
    next => exact absurd (by simp) (not_mem_of_digits h (c := ':') (by decide))
    next => rfl
  rw [datetime?, hdate, htime]

/-- Digits alone are no floating-point number. -/
theorem float?_of_digits (h : ∀ c ∈ ds, c.isDigit = true) : float? ds = none := by
  have hinf : ds ≠ "inf".toList := by
    rintro rfl
    exact not_mem_of_digits h (c := 'i') (by decide) (by decide)
  have hnan : ds ≠ "nan".toList := by
    rintro rfl
    exact not_mem_of_digits h (c := 'n') (by decide) (by decide)
  have hdigits : ∀ c ∈ ds, inDigits c = true := fun c hc => by simp [inDigits, h c hc]
  have hspan : ds.span inDigits = (ds, []) := by
    rw [List.span_eq_takeWhile_dropWhile, List.takeWhile_eq_self_iff.2 hdigits,
      List.dropWhile_eq_nil_iff.2 hdigits]
  rw [float?, splitSign_of_digits h]
  simp only [hinf, hnan, or_self, if_false, hspan]
  split <;> rfl

end Digits

/-- Digits make up their number again. -/
theorem digitsValue_toDigits (n : Nat) : digitsValue 10 (Nat.toDigits 10 n) = n := by
  have hof : Json.ofDigits (Json.digits n) = n := Json.ofDigits_digits n
  rw [Json.ofDigits, Json.digits, List.foldl_map] at hof
  refine Eq.trans ?_ hof
  refine List.foldl_ext _ _ _ fun m c hc => ?_
  have hdigit := Nat.isDigit_of_mem_toDigits (by decide) (by decide) hc
  have hne : c ≠ '_' := by
    rintro rfl
    cases hdigit
  rw [if_neg hne, if_pos hdigit]

/-- Only the number zero begins with the digit zero. -/
theorem isWhole_toDigits (n : Nat) : isWhole (Nat.toDigits 10 n) = true := by
  have hdigits : ∀ c ∈ Nat.toDigits 10 n, c.isDigit = true := fun c =>
    Nat.isDigit_of_mem_toDigits (by decide) (by decide)
  rw [isWhole, isDigitRun_of_digits hdigits Nat.toDigits_ne_nil, Bool.true_and]
  cases hds : Nat.toDigits 10 n with
  | nil => rfl
  | cons c ds =>
    by_cases hc : c = '0'
    · have hhead : Json.digits n = 0 :: ds.map fun c => c.toNat - 48 := by
        rw [Json.digits, hds, hc]
        rfl
      have hnil := List.map_eq_nil_iff.1 (Json.digits_head hhead)
      simp [hnil]
    · simp [hc]

/-- The digits of a number in range are read as that number. -/
theorem scalar?_toDigits {n : Nat} (h : n < integerBound) :
    scalar? (Nat.toDigits 10 n) = some (.integer n) := by
  have hdigits : ∀ c ∈ Nat.toDigits 10 n, c.isDigit = true := fun c =>
    Nat.isDigit_of_mem_toDigits (by decide) (by decide)
  have htrue : Nat.toDigits 10 n ≠ "true".toList := fun heq =>
    not_mem_of_digits hdigits (c := 't') (by decide) (by rw [heq]; decide)
  have hfalse : Nat.toDigits 10 n ≠ "false".toList := fun heq =>
    not_mem_of_digits hdigits (c := 'f') (by decide) (by rw [heq]; decide)
  have hinteger : integer? (Nat.toDigits 10 n) = some (.integer n) := by
    unfold integer?
    split
    next heq => exact absurd (by rw [heq]; simp) (not_mem_of_digits hdigits (c := 'x') (by decide))
    next heq => exact absurd (by rw [heq]; simp) (not_mem_of_digits hdigits (c := 'o') (by decide))
    next heq => exact absurd (by rw [heq]; simp) (not_mem_of_digits hdigits (c := 'b') (by decide))
    next =>
      rw [splitSign_of_digits hdigits]
      simp [digitsValue_toDigits, isWhole_toDigits, h]
  rw [scalar?, if_neg htrue, if_neg hfalse, datetime?_of_digits hdigits, float?_of_digits hdigits,
    hinteger]
  rfl

/-! ## Plain values -/

/-- The node a plain value stands for. -/
def Plain.node : Plain → Node
  | text s => .string s
  | number n => .integer n
  | flag b => .boolean b

/-- The value is no number out of the range of integers. -/
def Plain.InRange : Plain → Prop
  | number n => n < integerBound
  | _ => True

/-- A value in quotes is a string. -/
theorem value?_quoted {depth : Nat} {quote : Char} (h : quote = '"' ∨ quote = '\'')
    (text : List Char) :
    value? depth (quote :: text) =
      (string? (quote :: text)).map fun (s, rest) => (.string s, rest) := by
  rcases h with rfl | rfl <;> rw [value?]

/-- A string is written between quotes. -/
theorem exists_renderString_eq_cons (cs : List Char) :
    ∃ quote more, renderString cs = quote :: more ∧ (quote = '"' ∨ quote = '\'') := by
  unfold renderString
  cases formOf cs with
  | basic => exact ⟨_, _, rfl, .inl rfl⟩
  | literal => exact ⟨_, _, rfl, .inr rfl⟩
  | longBasic => exact ⟨_, _, rfl, .inl rfl⟩
  | longLiteral => exact ⟨_, _, rfl, .inr rfl⟩

namespace Plain

/-- Without quotes a value is a run that is read as its node. -/
theorem scalar?_render {p : Plain} (h : p.InRange) (hp : ∀ s, p ≠ text s) :
    (∀ c ∈ p.render, inRun c = true) ∧ scalar? p.render = some p.node := by
  cases p with
  | text s => exact absurd rfl (hp s)
  | number n =>
    refine ⟨fun c hc => ?_, scalar?_toDigits h⟩
    have hdigit := Nat.isDigit_of_mem_toDigits (by decide) (by decide) hc
    simp [inRun, Char.isAlphanum, hdigit]
  | flag b =>
    cases b with
    | true => exact ⟨List.all_eq_true.1 rfl, rfl⟩
    | false => exact ⟨List.all_eq_true.1 rfl, rfl⟩

/-- A value is read back at the end of its line. -/
theorem value?_render {depth : Nat} {p : Plain} (h : p.InRange) (rest : List Char) :
    value? depth (p.render ++ '\n' :: rest) = some (p.node, '\n' :: rest) := by
  by_cases hp : ∃ s, p = text s
  · obtain ⟨s, rfl⟩ := hp
    have hread : string? (renderString s.toList ++ '\n' :: rest) =
        some (String.ofList s.toList, '\n' :: rest) :=
      string?_renderString s.toList (by simp) (by simp)
    obtain ⟨quote, more, hquoted, hquote⟩ := exists_renderString_eq_cons s.toList
    rw [hquoted, List.cons_append] at hread
    rw [render, hquoted, List.cons_append, value?_quoted hquote, hread]
    simp [node]
  · obtain ⟨hrun, hscalar⟩ := scalar?_render h fun s hs => hp ⟨s, hs⟩
    rw [value?_run hrun, hscalar]
    rfl

end Plain

end Toml

end Sidecar
