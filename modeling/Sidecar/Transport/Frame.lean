import Sidecar.Bytes
import Sidecar.Cause

/-!
# Frames

A connection carries frames. A frame is its length in four bytes, the most significant first, and
then its body. `frames` cuts the bytes that came in on a connection into bodies, as far as they go.

A length above the maximum breaks the connection, and so does an end in the middle of a length or
of a body. An end right after a length, before any byte of the body, counts as a clean end.
-/

namespace Sidecar

namespace Frame

/-- The length of the longest body. -/
def maxLength : Nat := 8 * 1024 * 1024

/-- A length in four bytes. -/
def lengthBytes (n : Nat) : Bytes :=
  [UInt8.ofNat (n / 0x1000000), UInt8.ofNat (n / 0x10000), UInt8.ofNat (n / 0x100), UInt8.ofNat n]

/-- The length that four bytes stand for. -/
def length (b0 b1 b2 b3 : UInt8) : Nat :=
  b0.toNat * 0x1000000 + b1.toNat * 0x10000 + b2.toNat * 0x100 + b3.toNat

/-- A frame with the given body. -/
def encode (body : Bytes) : Bytes := lengthBytes body.length ++ body

/-- What comes after the frames that were cut off: more may come, the stream has ended cleanly, or
it is broken. -/
inductive Tail where
  | waiting
  | ended
  | broken
deriving DecidableEq, Repr

/-- What the next bytes are: a body and the bytes after it, or no frame. -/
inductive Next where
  | body (body rest : Bytes)
  | none (tail : Tail)

/-- The next frame of a stream, which is closed after these bytes or not. -/
def next (closed : Bool) : Bytes → Next
  | [] => .none (if closed then .ended else .waiting)
  | b0 :: b1 :: b2 :: b3 :: rest =>
    let n := length b0 b1 b2 b3
    if maxLength < n then .none .broken
    else if n ≤ rest.length then .body (rest.take n) (rest.drop n)
    else if !closed then .none .waiting
    else .none (if rest = [] then .ended else .broken)
  | _ => .none (if closed then .broken else .waiting)

/-- Cut at most so many frames off. -/
def cut (closed : Bool) : Nat → Bytes → List Bytes × Tail
  | 0, _ => ([], .waiting)
  | n + 1, bytes =>
    match next closed bytes with
    | .body body rest =>
      let (bodies, tail) := cut closed n rest
      (body :: bodies, tail)
    | .none tail => ([], tail)

/-- All frames of a stream, and what comes after them. A frame takes at least four bytes. -/
def frames (closed : Bool) (bytes : Bytes) : List Bytes × Tail :=
  cut closed (bytes.length / 4 + 1) bytes

end Frame

end Sidecar
