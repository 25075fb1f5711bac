import Sidecar.Toml.Render

/-!
# Strings are read as they were written

Whatever its characters, a string is read back from the form it is written in
(`Toml.string?_renderString`). What is written for one character in double quotes is read as that
character, be it an escape or the character itself (`Toml.ReadsEscapes`), and in single quotes there
are only characters that stand for themselves.

Over several lines three quotes close the string, and up to two that come right before them belong
to it. A reader that keeps to this (`Toml.ClosesAtThree`) is told how many quotes it has passed, and
the writer never leaves more than two in a row.
-/

namespace Sidecar

namespace Toml

/-! ## Characters -/

@[simp] theorem consChar_some (c : Char) (cs rest : List Char) :
    consChar (some c) (some (cs, rest)) = some (c :: cs, rest) := rfl

/-- Only control characters other than the tabulator may not stand in a comment. -/
theorem inComment_of_isControl_eq_false {c : Char} (h : isControl c = false) (hbreak : c ≠ '\n') :
    inComment c = true := by
  rw [← Bool.not_eq_true, isControl, Bool.or_eq_true, Bool.and_eq_true, Bool.and_eq_true,
    decide_eq_true_eq, bne_iff_ne, bne_iff_ne, beq_iff_eq, not_or] at h
  rw [inComment, Bool.or_eq_true, Bool.and_eq_true, decide_eq_true_eq, decide_eq_true_eq,
    beq_iff_eq]
  by_cases htab : c = '\t'
  · exact .inl htab
  · exact .inr ⟨Nat.le_of_not_lt fun hlt => h.1 ⟨⟨hlt, htab⟩, hbreak⟩, h.2⟩

/-- The value of an upper-case hexadecimal digit. -/
theorem hexValue?_upperHex : ∀ n < 16, hexValue? (upperHex n) = some n := by
  decide

/-- The four digits of a control character spell it. -/
theorem charOfHex?_of_isControl {c : Char} (h : isControl c = true) :
    charOfHex? ['0', '0', upperHex (c.toNat / 16), upperHex (c.toNat % 16)] = some c := by
  have hlt : c.toNat < 0x80 := by
    simp only [isControl, Bool.or_eq_true, Bool.and_eq_true, decide_eq_true_eq, beq_iff_eq] at h
    omega
  have hhigh := hexValue?_upperHex (c.toNat / 16) (by omega)
  have hlow := hexValue?_upperHex (c.toNat % 16) (by omega)
  have hzero : hexValue? '0' = some 0 := rfl
  have hsum : c.toNat / 16 * 16 + c.toNat % 16 = c.toNat := by omega
  have hvalid : c.toNat.isValidChar := c.valid
  simp [charOfHex?, hzero, hhigh, hlow, hsum, hvalid]

/-- An escape is a letter that names the character, or its four digits. -/
theorem escape?_eq_some {long : Bool} {c : Char} {e : List Char} (h : escape? long c = some e) :
    (∃ letter, e = ['\\', letter] ∧ escaped? letter = some c) ∨
      ∃ a b, e = ['\\', 'u', '0', '0', a, b] ∧ charOfHex? ['0', '0', a, b] = some c := by
  unfold escape? at h
  split at h
  next hc => exact .inl ⟨'b', (Option.some.inj h).symm, hc ▸ rfl⟩
  split at h
  next hc => exact .inl ⟨'t', (Option.some.inj h).symm, hc ▸ rfl⟩
  split at h
  next hc =>
    split at h
    · cases h
    · exact .inl ⟨'n', (Option.some.inj h).symm, hc ▸ rfl⟩
  split at h
  next hc => exact .inl ⟨'f', (Option.some.inj h).symm, hc ▸ rfl⟩
  split at h
  next hc => exact .inl ⟨'r', (Option.some.inj h).symm, hc ▸ rfl⟩
  split at h
  next hc => exact .inl ⟨'\\', (Option.some.inj h).symm, by rw [hc]; rfl⟩
  split at h
  next hc => exact .inr ⟨_, _, (Option.some.inj h).symm, charOfHex?_of_isControl hc⟩
  next => cases h

/-- A character without an escape may stand for itself, or is a line break in a string that goes
over several lines. -/
theorem inBasic_of_escape?_eq_none {long : Bool} {c : Char} (hquote : c ≠ '"')
    (h : escape? long c = none) : inBasic c = true ∨ long = true ∧ c = '\n' := by
  unfold escape? at h
  by_cases hbreak : c = '\n'
  · subst hbreak
    cases long with
    | true => exact .inr ⟨rfl, rfl⟩
    | false => cases h
  · have hslash : c ≠ '\\' := by
      rintro rfl
      cases h
    have hcontrol : isControl c = false := by
      refine Bool.eq_false_iff.2 fun hcontrol => ?_
      rw [if_pos hcontrol] at h
      repeat' split at h
      all_goals cases h
    exact .inl (by simp [inBasic, inComment_of_isControl_eq_false hcontrol hbreak, hquote, hslash])

/-- What is written for a character other than the quote begins with no quote, with no carriage
return, and with a line break only for one. -/
theorem exists_escape?_eq_cons (long : Bool) {c : Char} (hquote : c ≠ '"') :
    ∃ d e, (escape? long c).getD [c] = d :: e ∧ d ≠ '"' ∧ d ≠ '\r' ∧ (d = '\n' → c = '\n') := by
  cases he : escape? long c with
  | none =>
    refine ⟨c, [], rfl, hquote, ?_, id⟩
    rintro rfl
    cases he
  | some e =>
    rcases escape?_eq_some he with ⟨letter, rfl, -⟩ | ⟨a, b, rfl, -⟩
    · exact ⟨_, _, rfl, by decide, by decide, by simp⟩
    · exact ⟨_, _, rfl, by decide, by decide, by simp⟩

/-- A character that is not the quote is written after any number of them. -/
theorem escapeAll_cons {long : Bool} {quotes : Nat} {c : Char} (hquote : c ≠ '"')
    (rest : List Char) :
    escapeAll long quotes (c :: rest) = (escape? long c).getD [c] ++ escapeAll long 0 rest := by
  rw [escapeAll, if_neg hquote]
  cases escape? long c <;> rfl

/-! ## Escapes -/

/-- A reader of escapes: what an escape spells and what may stand for itself is read as that
character, over several lines also a line break. -/
structure ReadsEscapes (long : Bool) (read : List Char → Option (List Char × List Char)) :
    Prop where
  letter : ∀ {letter c : Char}, escaped? letter = some c → ∀ rest,
    read ('\\' :: letter :: rest) = consChar (some c) (read rest)
  digits : ∀ a b c d rest,
    read ('\\' :: 'u' :: a :: b :: c :: d :: rest) = consChar (charOfHex? [a, b, c, d]) (read rest)
  inBasic : ∀ {c : Char}, inBasic c = true → ∀ rest,
    read (c :: rest) = consChar (some c) (read rest)
  lineBreak : long = true → ∀ rest, read ('\n' :: rest) = consChar (some '\n') (read rest)

/-- What is written for a character other than the quote is read as that character. -/
theorem ReadsEscapes.escape {long : Bool} {read : List Char → Option (List Char × List Char)}
    (hread : ReadsEscapes long read) {c : Char} (hquote : c ≠ '"') (rest : List Char) :
    read ((escape? long c).getD [c] ++ rest) = consChar (some c) (read rest) := by
  cases he : escape? long c with
  | none =>
    rcases inBasic_of_escape?_eq_none hquote he with hbasic | ⟨hlong, rfl⟩
    · exact hread.inBasic hbasic rest
    · exact hread.lineBreak hlong rest
  | some e =>
    rcases escape?_eq_some he with ⟨letter, rfl, hletter⟩ | ⟨a, b, rfl, hdigits⟩
    · exact hread.letter hletter rest
    · rw [← hdigits]
      exact hread.digits _ _ _ _ rest

/-! ## Double quotes -/

theorem readsEscapes_basic? : ReadsEscapes false basic? where
  letter {letter c} h rest := by
    have hu : letter ≠ 'u' := by rintro rfl; cases h
    have hU : letter ≠ 'U' := by rintro rfl; cases h
    rw [basic?, h]
    all_goals simp_all
  digits a b c d rest := by
    rw [basic?]
  inBasic {c} h rest := by
    have hquote : c ≠ '"' := by rintro rfl; cases h
    have hslash : c ≠ '\\' := by rintro rfl; cases h
    rw [basic?, if_pos h]
    all_goals simp_all
  lineBreak h := absurd h Bool.false_ne_true

/-- Any characters are read back from double quotes. -/
theorem basic?_escapeAll (cs rest : List Char) :
    basic? (escapeAll false 0 cs ++ '"' :: rest) = some (cs, rest) := by
  induction cs with
  | nil => rfl
  | cons c cs ih =>
    by_cases hquote : c = '"'
    · subst hquote
      show basic? ('\\' :: '"' :: (escapeAll false 0 cs ++ '"' :: rest)) = _
      rw [readsEscapes_basic?.letter rfl, ih, consChar_some]
    · rw [escapeAll_cons hquote, List.append_assoc, readsEscapes_basic?.escape hquote, ih,
        consChar_some]

/-! ## Single quotes -/

/-- Characters that may stand between single quotes are read as they are. -/
theorem literal?_append {cs : List Char} (h : ∀ c ∈ cs, inLiteral c = true) (rest : List Char) :
    literal? (cs ++ '\'' :: rest) = some (cs, rest) := by
  induction cs with
  | nil => rfl
  | cons c cs ih =>
    rw [List.forall_mem_cons] at h
    have hquote : c ≠ '\'' := by
      rintro rfl
      cases h.1
    rw [List.cons_append, literal?, if_pos h.1, ih h.2, consChar_some]
    exact hquote

/-! ## Three quotes -/

/-- A reader of strings over several lines: three quotes that no other follows close the string,
with up to two before them that belong to it, and any other quote stands for itself. -/
structure ClosesAtThree (quote : Char) (read : List Char → Option (List Char × List Char)) :
    Prop where
  close : ∀ {rest : List Char}, (∀ r, rest ≠ quote :: r) → ∀ quotes ≤ 2,
    read (List.replicate quotes quote ++ (thrice quote ++ rest)) =
      some (List.replicate quotes quote, rest)
  keep : ∀ {text : List Char}, (∀ r, text ≠ quote :: quote :: r) →
    read (quote :: text) = consChar (some quote) (read text)

/-- Up to two quotes stand for themselves before anything else. -/
theorem ClosesAtThree.keep_quotes {quote : Char} {read : List Char → Option (List Char × List Char)}
    (hread : ClosesAtThree quote read) {c : Char} {text cs rest : List Char} (hc : c ≠ quote)
    (h : read (c :: text) = some (cs, rest)) : ∀ quotes ≤ 2,
    read (List.replicate quotes quote ++ c :: text) =
      some (List.replicate quotes quote ++ cs, rest) := by
  have hone : read (quote :: c :: text) = some (quote :: cs, rest) := by
    rw [hread.keep (by simp [hc]), h, consChar_some]
  have htwo : read (quote :: quote :: c :: text) = some (quote :: quote :: cs, rest) := by
    rw [hread.keep (by simp [hc]), hone, consChar_some]
  intro quotes hquotes
  match quotes, hquotes with
  | 0, _ => exact h
  | 1, _ => exact hone
  | 2, _ => exact htwo

/-- One more quote in a row. -/
theorem replicate_append_cons {α : Type} (n : Nat) (a : α) (l : List α) :
    List.replicate n a ++ a :: l = List.replicate (n + 1) a ++ l := by
  rw [List.replicate_succ', List.append_assoc]
  rfl

/-! ## Three double quotes -/

theorem closesAtThree_longBasic? : ClosesAtThree '"' (longBasic? false) where
  close {rest} hrest quotes hquotes := by
    match quotes, hquotes with
    | 0, _ =>
      show longBasic? false ('"' :: '"' :: '"' :: rest) = _
      rw [longBasic?]
      · rfl
      all_goals simp_all
    | 1, _ =>
      show longBasic? false ('"' :: '"' :: '"' :: '"' :: rest) = _
      rw [longBasic?]
      · rfl
      all_goals simp_all
    | 2, _ =>
      show longBasic? false ('"' :: '"' :: '"' :: '"' :: '"' :: rest) = _
      rw [longBasic?]
      rfl
  keep {text} h := by
    rw [longBasic?]
    all_goals simp_all

/-- A letter that names a character is not the white space at the end of a line. -/
theorem restOfLineBlank_letter {letter c : Char} (h : escaped? letter = some c)
    (rest : List Char) : restOfLineBlank (letter :: rest) = false := by
  have hblank : isBlank letter = false := by
    refine Bool.eq_false_iff.2 fun hblank => ?_
    rw [isBlank, Bool.or_eq_true, beq_iff_eq, beq_iff_eq] at hblank
    rcases hblank with rfl | rfl <;> cases h
  have hbreak : letter ≠ '\n' := by rintro rfl; cases h
  have hreturn : letter ≠ '\r' := by rintro rfl; cases h
  rw [restOfLineBlank, skipBlanks, List.dropWhile_cons, if_neg (by simp [hblank]), lineBreak?]
  · rfl
  all_goals simp_all

theorem readsEscapes_longBasic? : ReadsEscapes true (longBasic? false) where
  letter {letter c} h rest := by
    have hu : letter ≠ 'u' := by rintro rfl; cases h
    have hU : letter ≠ 'U' := by rintro rfl; cases h
    rw [longBasic?, restOfLineBlank_letter h, h]
    · rfl
    all_goals simp_all
  digits a b c d rest := by
    rw [longBasic?]
  inBasic {c} h rest := by
    have hquote : c ≠ '"' := by rintro rfl; cases h
    have hslash : c ≠ '\\' := by rintro rfl; cases h
    have hbreak : c ≠ '\n' := by rintro rfl; cases h
    have hreturn : c ≠ '\r' := by rintro rfl; cases h
    rw [longBasic?, if_neg (by simp), if_pos h]
    all_goals simp_all
  lineBreak _ rest := rfl

/-- Any characters are read back from three double quotes, with the quotes that were passed. -/
theorem longBasic?_escapeAll (cs : List Char) {rest : List Char} (hrest : ∀ r, rest ≠ '"' :: r) :
    ∀ quotes ≤ 2, longBasic? false
        (List.replicate quotes '"' ++ (escapeAll true quotes cs ++ (thrice '"' ++ rest))) =
      some (List.replicate quotes '"' ++ cs, rest) := by
  induction cs with
  | nil =>
    intro quotes hquotes
    rw [escapeAll, List.nil_append, List.append_nil]
    exact closesAtThree_longBasic?.close hrest quotes hquotes
  | cons c cs ih =>
    intro quotes hquotes
    have hcs : longBasic? false (escapeAll true 0 cs ++ (thrice '"' ++ rest)) = some (cs, rest) :=
      ih 0 (Nat.zero_le _)
    by_cases hquote : c = '"'
    · subst hquote
      rw [escapeAll, if_pos rfl, if_pos rfl]
      by_cases hlt : quotes < 2
      · rw [if_pos hlt, List.cons_append, replicate_append_cons, replicate_append_cons]
        exact ih _ hlt
      · rw [if_neg hlt]
        refine closesAtThree_longBasic?.keep_quotes (by decide) ?_ quotes hquotes
        show longBasic? false ('\\' :: '"' :: (escapeAll true 0 cs ++ (thrice '"' ++ rest))) = _
        rw [readsEscapes_longBasic?.letter rfl, hcs, consChar_some]
    · obtain ⟨d, e, he, hd, -⟩ := exists_escape?_eq_cons true hquote
      have hread :=
        readsEscapes_longBasic?.escape hquote (escapeAll true 0 cs ++ (thrice '"' ++ rest))
      rw [hcs, consChar_some, he] at hread
      rw [escapeAll_cons hquote, he, List.append_assoc]
      exact closesAtThree_longBasic?.keep_quotes hd hread quotes hquotes

/-! ## Three single quotes -/

theorem closesAtThree_longLiteral? : ClosesAtThree '\'' longLiteral? where
  close {rest} hrest quotes hquotes := by
    match quotes, hquotes with
    | 0, _ =>
      show longLiteral? ('\'' :: '\'' :: '\'' :: rest) = _
      rw [longLiteral?]
      · rfl
      all_goals simp_all
    | 1, _ =>
      show longLiteral? ('\'' :: '\'' :: '\'' :: '\'' :: rest) = _
      rw [longLiteral?]
      · rfl
      all_goals simp_all
    | 2, _ =>
      show longLiteral? ('\'' :: '\'' :: '\'' :: '\'' :: '\'' :: rest) = _
      rw [longLiteral?]
      rfl
  keep {text} h := by
    rw [longLiteral?]
    all_goals simp_all

/-- A character other than the quote that is no control character is read as it is. -/
theorem longLiteral?_cons {c : Char} (hcontrol : isControl c = false) (hquote : c ≠ '\'')
    (rest : List Char) : longLiteral? (c :: rest) = consChar (some c) (longLiteral? rest) := by
  by_cases hbreak : c = '\n'
  · subst hbreak
    rfl
  · have hreturn : c ≠ '\r' := by rintro rfl; cases hcontrol
    have hliteral : inLiteral c = true := by
      simp [inLiteral, inComment_of_isControl_eq_false hcontrol hbreak, hquote]
    rw [longLiteral?, if_pos hliteral]
    all_goals simp_all

/-- A run is at least as long as the one it continues. -/
theorem le_longestRun (c : Char) : ∀ (n : Nat) (cs : List Char), n ≤ longestRun c n cs
  | _, [] => Nat.le_refl _
  | n, d :: cs => by
    rw [longestRun]
    split
    · exact Nat.le_of_succ_le (le_longestRun c (n + 1) cs)
    · exact Nat.le_max_left _ _

/-- Characters with at most two quotes in a row are read back from three single quotes. -/
theorem longLiteral?_append {cs : List Char} (hcs : ∀ c ∈ cs, isControl c = false)
    {rest : List Char} (hrest : ∀ r, rest ≠ '\'' :: r) : ∀ quotes,
    longestRun '\'' quotes cs ≤ 2 →
    longLiteral? (List.replicate quotes '\'' ++ (cs ++ (thrice '\'' ++ rest))) =
      some (List.replicate quotes '\'' ++ cs, rest) := by
  induction cs with
  | nil =>
    intro quotes hrun
    rw [List.nil_append, List.append_nil]
    exact closesAtThree_longLiteral?.close hrest quotes hrun
  | cons c cs ih =>
    intro quotes hrun
    rw [List.forall_mem_cons] at hcs
    rw [longestRun] at hrun
    by_cases hquote : c = '\''
    · subst hquote
      rw [if_pos rfl] at hrun
      rw [List.cons_append, replicate_append_cons, replicate_append_cons]
      exact ih hcs.2 _ hrun
    · rw [if_neg hquote, Nat.max_le] at hrun
      have hread := longLiteral?_cons hcs.1 hquote (cs ++ (thrice '\'' ++ rest))
      rw [show longLiteral? (cs ++ (thrice '\'' ++ rest)) = some (cs, rest) from ih hcs.2 0 hrun.2,
        consChar_some] at hread
      exact closesAtThree_longLiteral?.keep_quotes hquote hread quotes hrun.1

/-! ## All forms -/

/-- Without a run there is no such character. -/
theorem not_mem_of_longestRun_eq_zero {c : Char} : ∀ {n : Nat} {cs : List Char},
    longestRun c n cs = 0 → c ∉ cs
  | _, [], _ => List.not_mem_nil
  | n, d :: cs, h => by
    rw [longestRun] at h
    split at h
    · have hle := le_longestRun c (n + 1) cs
      omega
    next hd =>
      have hzero : longestRun c 0 cs = 0 := by omega
      rw [List.mem_cons, not_or]
      exact ⟨Ne.symm hd, not_mem_of_longestRun_eq_zero hzero⟩

/-- Single quotes are for characters that may stand between them. -/
theorem inLiteral_of_formOf {cs : List Char} (h : formOf cs = .literal) :
    ∀ c ∈ cs, inLiteral c = true := by
  unfold formOf at h
  simp only at h
  split at h
  · cases h
  split at h
  next hliteral =>
    simp only [Bool.and_eq_true, Bool.not_eq_true', decide_eq_true_eq, List.any_eq_false,
      List.contains_eq_mem, decide_eq_false_iff_not] at hliteral
    obtain ⟨⟨hcontrol, hsingles⟩, hbreak⟩ := hliteral
    intro c hc
    have hquote : c ≠ '\'' := fun heq => not_mem_of_longestRun_eq_zero hsingles (heq ▸ hc)
    have hcomment : inComment c = true := inComment_of_isControl_eq_false
      (Bool.eq_false_iff.2 (hcontrol c hc)) fun heq => hbreak (heq ▸ hc)
    simp [inLiteral, hcomment, hquote]
  repeat' split at h
  all_goals cases h

/-- Three single quotes are for characters without control characters, and with at most two quotes
in a row. -/
theorem run_of_formOf {cs : List Char} (h : formOf cs = .longLiteral) :
    (∀ c ∈ cs, isControl c = false) ∧ longestRun '\'' 0 cs ≤ 2 := by
  unfold formOf at h
  simp only at h
  split at h
  · cases h
  split at h
  · cases h
  split at h
  · cases h
  split at h
  next hlong =>
    simp only [Bool.and_eq_true, Bool.not_eq_true', decide_eq_true_eq, List.any_eq_false] at hlong
    exact ⟨fun c hc => Bool.eq_false_iff.2 (hlong.1 c hc), hlong.2⟩
  split at h <;> cases h

/-- Nothing but a line break is dropped. -/
theorem dropLineBreak_cons {c : Char} (hbreak : c ≠ '\n') (hreturn : c ≠ '\r') (rest : List Char) :
    dropLineBreak (c :: rest) = c :: rest := by
  rw [dropLineBreak, lineBreak?]
  · rfl
  all_goals simp_all

/-- The line break after the opening quotes is the one that is dropped. -/
theorem dropLineBreak_opening {cs text : List Char}
    (h : '\n' ∉ cs → dropLineBreak text = text) : dropLineBreak (opening cs ++ text) = text := by
  unfold opening
  by_cases hbreak : '\n' ∈ cs
  · rw [if_pos (by simpa using hbreak)]
    rfl
  · rw [if_neg (by simpa using hbreak)]
    exact h hbreak

/-- Characters without a line break are not written with one at the front. -/
theorem dropLineBreak_escapeAll {cs : List Char} (hbreak : '\n' ∉ cs) (rest : List Char) :
    dropLineBreak (escapeAll true 0 cs ++ (thrice '"' ++ rest)) =
      escapeAll true 0 cs ++ (thrice '"' ++ rest) := by
  cases cs with
  | nil => exact dropLineBreak_cons (by decide) (by decide) _
  | cons c cs =>
    rw [List.mem_cons, not_or] at hbreak
    by_cases hquote : c = '"'
    · subst hquote
      exact dropLineBreak_cons (by decide) (by decide) _
    · obtain ⟨d, e, he, -, hreturn, hd⟩ := exists_escape?_eq_cons true hquote
      rw [escapeAll_cons hquote, he, List.append_assoc]
      exact dropLineBreak_cons (fun heq => hbreak.1 (hd heq).symm) hreturn _

/-- What is written for characters without a line break has none at the front. -/
theorem dropLineBreak_append {cs : List Char} (hbreak : '\n' ∉ cs)
    (hcontrol : ∀ c ∈ cs, isControl c = false) (rest : List Char) :
    dropLineBreak (cs ++ (thrice '\'' ++ rest)) = cs ++ (thrice '\'' ++ rest) := by
  cases cs with
  | nil => exact dropLineBreak_cons (by decide) (by decide) _
  | cons c cs =>
    rw [List.mem_cons, not_or] at hbreak
    have hreturn : c ≠ '\r' := by
      rintro rfl
      cases hcontrol _ List.mem_cons_self
    exact dropLineBreak_cons (Ne.symm hbreak.1) hreturn _

/-- After the opening quote in double quotes there are no two more. -/
theorem escapeAll_append_ne {rest : List Char} (hrest : ∀ r, rest ≠ '"' :: r) (cs r : List Char) :
    escapeAll false 0 cs ++ '"' :: rest ≠ '"' :: '"' :: r := by
  cases cs with
  | nil => exact fun h => hrest r (List.cons.inj h).2
  | cons c cs =>
    by_cases hquote : c = '"'
    · subst hquote
      exact fun h => absurd (List.cons.inj h).1 (by decide)
    · obtain ⟨d, e, he, hd, -⟩ := exists_escape?_eq_cons false hquote
      rw [escapeAll_cons hquote, he]
      exact fun h => hd (List.cons.inj h).1

/-- After the opening quote in single quotes there are no two more. -/
theorem literal_append_ne {rest : List Char} (hrest : ∀ r, rest ≠ '\'' :: r) {cs : List Char}
    (hcs : ∀ c ∈ cs, inLiteral c = true) (r : List Char) :
    cs ++ '\'' :: rest ≠ '\'' :: '\'' :: r := by
  cases cs with
  | nil => exact fun h => hrest r (List.cons.inj h).2
  | cons c cs =>
    intro h
    have hquote := hcs c List.mem_cons_self
    rw [(List.cons.inj h).1] at hquote
    cases hquote

theorem string?_thrice_double (text : List Char) :
    string? (thrice '"' ++ text) = string?.finish (longBasic? false (dropLineBreak text)) := rfl

theorem string?_thrice_single (text : List Char) :
    string? (thrice '\'' ++ text) = string?.finish (longLiteral? (dropLineBreak text)) := rfl

/-- A string is read back from the form it is written in, if no quote follows. -/
theorem string?_renderString (cs : List Char) {rest : List Char}
    (hdouble : ∀ r, rest ≠ '"' :: r) (hsingle : ∀ r, rest ≠ '\'' :: r) :
    string? (renderString cs ++ rest) = some (String.ofList cs, rest) := by
  unfold renderString
  cases hform : formOf cs with
  | basic =>
    show string? ('"' :: (escapeAll false 0 cs ++ ['"'] ++ rest)) = _
    rw [List.append_assoc, List.singleton_append, string?, basic?_escapeAll]
    · rfl
    · exact escapeAll_append_ne hdouble cs
  | literal =>
    have hcs := inLiteral_of_formOf hform
    show string? ('\'' :: (cs ++ ['\''] ++ rest)) = _
    rw [List.append_assoc, List.singleton_append, string?, literal?_append hcs]
    · rfl
    · exact literal_append_ne hsingle hcs
  | longBasic =>
    have hread : longBasic? false (escapeAll true 0 cs ++ (thrice '"' ++ rest)) = some (cs, rest) :=
      longBasic?_escapeAll cs hdouble 0 (Nat.zero_le _)
    have hrender : renderAs .longBasic cs ++ rest =
        thrice '"' ++ (opening cs ++ (escapeAll true 0 cs ++ (thrice '"' ++ rest))) := by
      simp only [renderAs, List.append_assoc]
    rw [hrender, string?_thrice_double,
      dropLineBreak_opening fun hbreak => dropLineBreak_escapeAll hbreak rest, hread]
    rfl
  | longLiteral =>
    obtain ⟨hcontrol, hrun⟩ := run_of_formOf hform
    have hread : longLiteral? (cs ++ (thrice '\'' ++ rest)) = some (cs, rest) :=
      longLiteral?_append hcontrol hsingle 0 hrun
    have hrender : renderAs .longLiteral cs ++ rest =
        thrice '\'' ++ (opening cs ++ (cs ++ (thrice '\'' ++ rest))) := by
      simp only [renderAs, List.append_assoc]
    rw [hrender, string?_thrice_single,
      dropLineBreak_opening fun hbreak => dropLineBreak_append hbreak hcontrol rest, hread]
    rfl

end Toml

end Sidecar
