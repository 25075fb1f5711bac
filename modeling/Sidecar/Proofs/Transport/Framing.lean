import Sidecar.Transport.Frame

/-!
# Cutting frames

Frames that were put together come apart again, one body each (`Frame.frames_flatMap_encode`).
Where a stream of frames breaks off, the frames that are whole are cut off, and the rest is no
frame: what comes after them is a clean end or a broken stream, but nothing to wait for
(`Frame.frames_take_cons`).
-/

namespace Sidecar

namespace Frame

/-! ## Lengths -/

theorem length_lengthBytes (n : Nat) : (lengthBytes n).length = 4 := rfl

theorem length_encode (body : Bytes) : (encode body).length = body.length + 4 := by
  rw [encode, List.length_append, length_lengthBytes, Nat.add_comm]

/-- A length is read from its four bytes. -/
theorem length_eq {n : Nat} (h : n < 0x100000000) :
    length (UInt8.ofNat (n / 0x1000000)) (UInt8.ofNat (n / 0x10000)) (UInt8.ofNat (n / 0x100))
      (UInt8.ofNat n) = n := by
  simp only [length, UInt8.toNat_ofNat']
  omega

/-! ## One frame -/

/-- The bytes after a length that is not too long. -/
theorem next_lengthBytes_append {n : Nat} (hn : n ≤ maxLength) (closed : Bool) (rest : Bytes) :
    next closed (lengthBytes n ++ rest) =
      if n ≤ rest.length then .body (rest.take n) (rest.drop n)
      else if !closed then .none .waiting
      else .none (if rest = [] then .ended else .broken) := by
  have hlt : n < 0x100000000 := Nat.lt_of_le_of_lt hn (by decide)
  simp only [lengthBytes, List.cons_append, List.nil_append, next, length_eq hlt]
  rw [if_neg (Nat.not_lt.2 hn)]

/-- A frame is cut off from what follows it. -/
theorem next_encode_append {body : Bytes} (h : body.length ≤ maxLength) (closed : Bool)
    (rest : Bytes) : next closed (encode body ++ rest) = .body body rest := by
  rw [encode, List.append_assoc, next_lengthBytes_append h, if_pos (by simp), List.take_left',
    List.drop_left'] <;> rfl

/-- Part of a frame is no frame, and a stream that ends there has nothing to wait for. -/
theorem next_take_encode {body : Bytes} (h : body.length ≤ maxLength) {n : Nat}
    (hn : n < (encode body).length) :
    ∃ tail, next true ((encode body).take n) = .none tail ∧ tail ≠ .waiting := by
  rw [length_encode] at hn
  match n with
  | 0 => exact ⟨.ended, rfl, nofun⟩
  | 1 | 2 | 3 => exact ⟨.broken, rfl, nofun⟩
  | n + 4 =>
    have htake : (encode body).take (n + 4) = lengthBytes body.length ++ body.take n := rfl
    rw [htake, next_lengthBytes_append h, if_neg (by simp; omega)]
    by_cases hrest : body.take n = []
    · exact ⟨.ended, by simp [hrest], nofun⟩
    · exact ⟨.broken, by simp [hrest], nofun⟩

/-! ## All frames -/

/-- Frames are cut off one after the other. -/
theorem cut_flatMap_encode_append {bodies : List Bytes} (h : ∀ b ∈ bodies, b.length ≤ maxLength)
    (closed : Bool) (n : Nat) (rest : Bytes) :
    cut closed (bodies.length + n) (bodies.flatMap encode ++ rest) =
      (bodies ++ (cut closed n rest).1, (cut closed n rest).2) := by
  induction bodies with
  | nil => simp
  | cons body bodies ih =>
    rw [List.forall_mem_cons] at h
    have hfuel : (body :: bodies).length + n = bodies.length + n + 1 := by
      rw [List.length_cons]
      omega
    rw [hfuel, List.flatMap_cons, List.append_assoc, cut, next_encode_append h.1]
    simp only [ih h.2, List.cons_append]

/-- Each frame takes four bytes at least. -/
theorem length_le_length_flatMap_encode (bodies : List Bytes) :
    4 * bodies.length ≤ (bodies.flatMap encode).length := by
  induction bodies with
  | nil => exact Nat.le_refl _
  | cons body bodies ih =>
    rw [List.flatMap_cons, List.length_append, length_encode, List.length_cons]
    omega

/-- Frames come apart again, and the rest is no frame. -/
theorem frames_flatMap_encode_append {bodies : List Bytes}
    (h : ∀ b ∈ bodies, b.length ≤ maxLength) {closed : Bool} {rest : Bytes} {tail : Tail}
    (hrest : next closed rest = .none tail) :
    frames closed (bodies.flatMap encode ++ rest) = (bodies, tail) := by
  obtain ⟨n, hn⟩ : ∃ n,
      (bodies.flatMap encode ++ rest).length / 4 + 1 = bodies.length + (n + 1) := by
    have := length_le_length_flatMap_encode bodies
    rw [List.length_append]
    exact ⟨((bodies.flatMap encode).length + rest.length) / 4 - bodies.length, by omega⟩
  rw [frames, hn, cut_flatMap_encode_append h, cut, hrest]
  simp

/-- Frames that were put together come apart again. -/
theorem frames_flatMap_encode {bodies : List Bytes} (h : ∀ b ∈ bodies, b.length ≤ maxLength)
    (closed : Bool) :
    frames closed (bodies.flatMap encode) = (bodies, if closed then .ended else .waiting) := by
  have hnext : next closed [] = .none (if closed then .ended else .waiting) := rfl
  have hframes := frames_flatMap_encode_append h hnext
  rwa [List.append_nil] at hframes

/-- A stream of frames breaks off within one of them. -/
theorem exists_take_flatMap {bodies : List Bytes} {n : Nat}
    (hn : n < (bodies.flatMap encode).length) :
    ∃ before body after m, bodies = before ++ body :: after ∧ m < (encode body).length ∧
      (bodies.flatMap encode).take n = before.flatMap encode ++ (encode body).take m := by
  induction bodies generalizing n with
  | nil => exact absurd hn (Nat.not_lt_zero n)
  | cons body bodies ih =>
    rw [List.flatMap_cons] at hn ⊢
    rcases Nat.lt_or_ge n (encode body).length with hlt | hge
    · exact ⟨[], body, bodies, n, rfl, hlt, List.take_append_of_le_length (Nat.le_of_lt hlt)⟩
    · rw [List.length_append] at hn
      obtain ⟨before, body', after, m, rfl, hm, htake⟩ :=
        ih (n := n - (encode body).length) (by omega)
      refine ⟨body :: before, body', after, m, rfl, hm, ?_⟩
      rw [List.take_append, List.take_of_length_le hge, htake, List.flatMap_cons, List.append_assoc]

/-- Of a stream of frames that breaks off behind its first frame, the frames before the break are
cut off. At least one frame is missing, and nothing more is to be waited for. -/
theorem frames_take_cons {first : Bytes} {bodies : List Bytes}
    (h : ∀ b ∈ first :: bodies, b.length ≤ maxLength) {n : Nat} (hfirst : (encode first).length ≤ n)
    (hn : n < ((first :: bodies).flatMap encode).length) :
    ∃ before body after tail, bodies = before ++ body :: after ∧ tail ≠ .waiting ∧
      frames true (((first :: bodies).flatMap encode).take n) = (first :: before, tail) := by
  rw [List.flatMap_cons] at hn ⊢
  rw [List.length_append] at hn
  have hrest : n - (encode first).length < (bodies.flatMap encode).length := by omega
  obtain ⟨before, body, after, m, rfl, hm, htake⟩ := exists_take_flatMap hrest
  have hwhole : ∀ b ∈ first :: before, b.length ≤ maxLength := fun b hb =>
    h b (List.mem_append_left (body :: after) hb)
  obtain ⟨tail, hnext, htail⟩ := next_take_encode (h body (by simp)) hm
  refine ⟨before, body, after, tail, rfl, htail, ?_⟩
  rw [List.take_append, List.take_of_length_le hfirst, htake, ← List.append_assoc,
    ← List.flatMap_cons, frames_flatMap_encode_append hwhole hnext]

end Frame

end Sidecar
