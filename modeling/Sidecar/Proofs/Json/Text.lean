import Sidecar.Json.Value

/-!
# Texts and their pieces

A text goes into a JSON string as its pieces (`Json.ofText`). This module says what a reader can
make of them: they spell the text again (`Json.text?_ofText`), and none of them is a bare quote or
backslash, so that a string with these pieces ends where its writer ends it
(`Json.unquoted_ofText`).
-/

namespace Sidecar

/-- The bytes of a text are the UTF-8 encoding of that text and of no other. -/
theorem ofUtf8?_utf8 (text : String) : ofUtf8? (utf8 text) = some text := by
  have hbytes : (utf8 text).toByteArray = text.toByteArray :=
    congrArg String.toByteArray (String.ofList_toList (s := text))
  unfold ofUtf8? String.fromUTF8?
  rw [dif_pos (hbytes ▸ text.isValidUTF8)]
  simp only [String.fromUTF8, hbytes]

namespace Json

/-! ## One character -/

/-- A character of ASCII is one byte. -/
theorem utf8EncodeChar_of_lt {c : Char} (h : c.toNat < 0x80) :
    String.utf8EncodeChar c = [UInt8.ofNat c.toNat] := by
  have hle : c.val.toNat ≤ 127 := by
    have : c.toNat = c.val.toNat := rfl
    omega
  rw [String.utf8EncodeChar.eq_1, if_pos hle]
  rfl

/-- A character beyond ASCII has no byte of ASCII. -/
theorem le_of_mem_utf8EncodeChar {c : Char} (h : 0x80 ≤ c.toNat) {b : UInt8}
    (hb : b ∈ String.utf8EncodeChar c) : 0x80 ≤ b.toNat := by
  have hgt : ¬ c.val.toNat ≤ 127 := by
    have : c.toNat = c.val.toNat := rfl
    omega
  rw [String.utf8EncodeChar.eq_1, if_neg hgt] at hb
  have hofNat : ∀ n : Nat, (UInt8.ofNat n).toNat = n % 256 := fun n => by simp
  split at hb
  · simp only [List.mem_cons, List.not_mem_nil, or_false] at hb
    rcases hb with rfl | rfl <;> rw [hofNat] <;> omega
  · split at hb
    · simp only [List.mem_cons, List.not_mem_nil, or_false] at hb
      rcases hb with rfl | rfl | rfl <;> rw [hofNat] <;> omega
    · simp only [List.mem_cons, List.not_mem_nil, or_false] at hb
      rcases hb with rfl | rfl | rfl | rfl <;> rw [hofNat] <;> omega

/-- A character is written as a single escape, or as bytes none of which is a control character, a
quote or a backslash. -/
theorem charPieces_cases (c : Char) :
    (c.toNat < 0x80 ∧ charPieces c = [.unit (UInt16.ofNat c.toNat)]) ∨
    (charPieces c = (String.utf8EncodeChar c).map .raw ∧
      ∀ b ∈ String.utf8EncodeChar c, 0x20 ≤ b.toNat ∧ b.toNat ≠ 34 ∧ b.toNat ≠ 92) := by
  unfold charPieces
  by_cases hescape : c.toNat < 0x20 ∨ c = '"' ∨ c = '\\'
  · rw [if_pos hescape]
    refine .inl ⟨?_, rfl⟩
    rcases hescape with h | rfl | rfl
    · omega
    · decide
    · decide
  · rw [if_neg hescape]
    refine .inr ⟨rfl, ?_⟩
    intro b hb
    by_cases hascii : c.toNat < 0x80
    · rw [utf8EncodeChar_of_lt hascii, List.mem_singleton] at hb
      have hval : b.toNat = c.toNat := by
        rw [hb, UInt8.toNat_ofNat']
        omega
      have hquote : c.toNat ≠ 34 := fun h => hescape (.inr (.inl (Char.toNat_inj.1 h)))
      have hbackslash : c.toNat ≠ 92 := fun h => hescape (.inr (.inr (Char.toNat_inj.1 h)))
      omega
    · have := le_of_mem_utf8EncodeChar (Nat.le_of_not_lt hascii) hb
      omega

/-! ## Reading the pieces -/

/-- Bytes that are no control characters are read as they stand. -/
theorem strictBytes?_map_raw {bytes : Bytes} (h : ∀ b ∈ bytes, 0x20 ≤ b.toNat)
    (rest : List Piece) :
    strictBytes? (bytes.map .raw ++ rest) = (bytes ++ ·) <$> strictBytes? rest := by
  induction bytes with
  | nil => simp
  | cons b bytes ih =>
    have hb : ¬ b < 0x20 := by
      rw [UInt8.lt_iff_toNat_lt]
      exact Nat.not_lt.2 (h b List.mem_cons_self)
    have htail := ih fun b' hb' => h b' (List.mem_cons_of_mem _ hb')
    rw [List.map_cons, List.cons_append, strictBytes?, if_neg hb, htail]
    cases strictBytes? rest <;> rfl

/-- The escape of an ASCII character stands for its byte. -/
theorem strictBytes?_unit {n : Nat} (h : n < 0x80) (rest : List Piece) :
    strictBytes? (.unit (UInt16.ofNat n) :: rest) =
      ([UInt8.ofNat n] ++ ·) <$> strictBytes? rest := by
  have hval : (UInt16.ofNat n).toNat = n := by
    rw [UInt16.toNat_ofNat']
    omega
  have hleading : isLeading (UInt16.ofNat n) = false := by
    simp only [isLeading, Bool.and_eq_false_iff, decide_eq_false_iff_not, UInt16.le_iff_toNat_le,
      hval]
    left
    simp
    omega
  have htrailing : isTrailing (UInt16.ofNat n) = false := by
    simp only [isTrailing, Bool.and_eq_false_iff, decide_eq_false_iff_not, UInt16.le_iff_toNat_le,
      hval]
    left
    simp
    omega
  rw [strictBytes?.eq_def]
  simp only [hleading, htrailing, Bool.false_eq_true, if_false, hval, codePointBytes, if_pos h]

/-- The pieces of a text are read as its bytes. -/
theorem strictBytes?_ofText (text : String) : strictBytes? (ofText text) = some (utf8 text) := by
  unfold ofText utf8
  induction text.toList with
  | nil => rfl
  | cons c cs ih =>
    rw [List.flatMap_cons, List.flatMap_cons]
    rcases charPieces_cases c with ⟨hascii, hpieces⟩ | ⟨hpieces, hbytes⟩
    · rw [hpieces, List.singleton_append, strictBytes?_unit hascii, ih,
        utf8EncodeChar_of_lt hascii]
      rfl
    · rw [hpieces, strictBytes?_map_raw fun b hb => (hbytes b hb).1, ih]
      rfl

/-- A text is what its pieces spell. -/
@[simp] theorem text?_ofText (text : String) : text? (ofText text) = some text := by
  rw [text?, strictBytes?_ofText]
  exact ofUtf8?_utf8 text

/-! ## Where a string ends -/

/-- The piece is no bare quote and no bare backslash, which would end the string or begin an
escape. -/
def Piece.Unquoted : Piece → Prop
  | .raw byte => byte ≠ 34 ∧ byte ≠ 92
  | .unit _ => True

/-- No piece of a text is a bare quote or backslash. -/
theorem unquoted_ofText (text : String) : ∀ p ∈ ofText text, p.Unquoted := by
  intro p hp
  obtain ⟨c, -, hc⟩ := List.mem_flatMap.1 hp
  rcases charPieces_cases c with ⟨-, hpieces⟩ | ⟨hpieces, hbytes⟩
  · rw [hpieces, List.mem_singleton] at hc
    rw [hc]
    trivial
  · rw [hpieces, List.mem_map] at hc
    obtain ⟨b, hb, rfl⟩ := hc
    obtain ⟨-, hquote, hbackslash⟩ := hbytes b hb
    exact ⟨fun h => hquote (by rw [h]; rfl), fun h => hbackslash (by rw [h]; rfl)⟩

end Json

end Sidecar
