import Sidecar.Bytes

/-!
# BLAKE3

The unkeyed BLAKE3 hash with its default output of 32 bytes. The input is cut into chunks of 1024
bytes, a chunk into blocks of 64 bytes, and the blocks of a chunk are compressed one after the
other into the chunk's chaining value (`chunkOutput`). Chaining values are then joined in a binary
tree whose left subtrees are the largest complete ones (`subtree`). The last compression of all is
marked as the root, and the first half of what it yields is the digest (`hash`).
-/

namespace Sidecar

namespace Blake3

/-- A word of the compression function. -/
abbrev Word := UInt32

/-- The initial chaining value. -/
def initial : List Word :=
  [0x6A09E667, 0xBB67AE85, 0x3C6EF372, 0xA54FF53A, 0x510E527F, 0x9B05688C, 0x1F83D9AB, 0x5BE0CD19]

/-- Mark of the first block of a chunk. -/
def chunkStart : Word := 1

/-- Mark of the last block of a chunk. -/
def chunkEnd : Word := 2

/-- Mark of a join of two chaining values. -/
def parent : Word := 4

/-- Mark of the last compression. -/
def root : Word := 8

/-- Rotation to the right, for a distance strictly between 0 and 32. -/
def rotateRight (w : Word) (n : Word) : Word := (w >>> n) ||| (w <<< (32 - n))

/-- Mix two message words into a column or diagonal of the state. -/
def mix (a b c d x y : Word) : Word × Word × Word × Word :=
  let a := a + b + x
  let d := rotateRight (d ^^^ a) 16
  let c := c + d
  let b := rotateRight (b ^^^ c) 12
  let a := a + b + y
  let d := rotateRight (d ^^^ a) 8
  let c := c + d
  let b := rotateRight (b ^^^ c) 7
  (a, b, c, d)

/-- One round: the four columns, then the four diagonals. Both lists have 16 words. -/
def round (state message : List Word) : List Word :=
  match state, message with
  | [v0, v1, v2, v3, v4, v5, v6, v7, v8, v9, v10, v11, v12, v13, v14, v15],
    [m0, m1, m2, m3, m4, m5, m6, m7, m8, m9, m10, m11, m12, m13, m14, m15] =>
    let (v0, v4, v8, v12) := mix v0 v4 v8 v12 m0 m1
    let (v1, v5, v9, v13) := mix v1 v5 v9 v13 m2 m3
    let (v2, v6, v10, v14) := mix v2 v6 v10 v14 m4 m5
    let (v3, v7, v11, v15) := mix v3 v7 v11 v15 m6 m7
    let (v0, v5, v10, v15) := mix v0 v5 v10 v15 m8 m9
    let (v1, v6, v11, v12) := mix v1 v6 v11 v12 m10 m11
    let (v2, v7, v8, v13) := mix v2 v7 v8 v13 m12 m13
    let (v3, v4, v9, v14) := mix v3 v4 v9 v14 m14 m15
    [v0, v1, v2, v3, v4, v5, v6, v7, v8, v9, v10, v11, v12, v13, v14, v15]
  | state, _ => state

/-- The order in which a round reads the words of the round before it. -/
def permute (message : List Word) : List Word :=
  match message with
  | [m0, m1, m2, m3, m4, m5, m6, m7, m8, m9, m10, m11, m12, m13, m14, m15] =>
    [m2, m6, m3, m10, m7, m0, m4, m13, m1, m11, m12, m5, m9, m14, m15, m8]
  | message => message

/-- A number of rounds, the message permuted between them. -/
def rounds : Nat → List Word → List Word → List Word
  | 0, state, _ => state
  | n + 1, state, message => rounds n (round state message) (permute message)

/-- What one compression works on: a chaining value, 16 message words, the number of the chunk, the
number of message bytes and the marks. -/
structure Node where
  chaining : List Word
  message : List Word
  counter : Nat
  length : Nat
  marks : Word

/-- The first eight words that a node's compression yields. -/
def Node.compress (node : Node) : List Word :=
  let state := node.chaining ++ initial.take 4 ++
    [UInt32.ofNat node.counter, UInt32.ofNat (node.counter / 0x100000000), UInt32.ofNat node.length,
      node.marks]
  let final := rounds 7 state node.message
  List.zipWith (· ^^^ ·) (final.take 8) (final.drop 8)

/-- Four bytes, least significant first, as a word. -/
def word (b0 b1 b2 b3 : UInt8) : Word :=
  b0.toUInt32 ||| (b1.toUInt32 <<< 8) ||| (b2.toUInt32 <<< 16) ||| (b3.toUInt32 <<< 24)

/-- The words of a block, padded with zeros to `n` words. -/
def words : Nat → Bytes → List Word
  | 0, _ => []
  | n + 1, b0 :: b1 :: b2 :: b3 :: rest => word b0 b1 b2 b3 :: words n rest
  | n + 1, [b0, b1, b2] => word b0 b1 b2 0 :: words n []
  | n + 1, [b0, b1] => word b0 b1 0 0 :: words n []
  | n + 1, [b0] => word b0 0 0 0 :: words n []
  | n + 1, [] => 0 :: words n []

/-- The bytes of a word, least significant first. -/
def wordBytes (w : Word) : Bytes :=
  [w.toUInt8, (w >>> 8).toUInt8, (w >>> 16).toUInt8, (w >>> 24).toUInt8]

/-- The node of a chunk's last block, after compressing the blocks before it. The first argument
bounds the number of blocks. -/
def blocks (counter : Nat) : Nat → List Word → Word → Bytes → Node
  | 0, chaining, marks, bytes =>
    ⟨chaining, words 16 bytes, counter, bytes.length, marks ||| chunkEnd⟩
  | n + 1, chaining, marks, bytes =>
    if bytes.length ≤ 64 then
      ⟨chaining, words 16 bytes, counter, bytes.length, marks ||| chunkEnd⟩
    else
      blocks counter n
        (Node.compress ⟨chaining, words 16 (bytes.take 64), counter, 64, marks⟩) 0 (bytes.drop 64)

/-- The last node of the chunk with the given number. -/
def chunkOutput (counter : Nat) (bytes : Bytes) : Node :=
  blocks counter 16 initial chunkStart bytes

/-- The node that joins two chaining values. -/
def join (left right : List Word) : Node := ⟨initial, left ++ right, 0, 64, parent⟩

/-- The largest power of two, from `power` on, whose double does not reach the number of chunks.
The first argument bounds the doublings. -/
def leftChunks : Nat → Nat → Nat → Nat
  | 0, power, _ => power
  | n + 1, power, chunks => if power * 2 < chunks then leftChunks n (power * 2) chunks else power

/-- The last node of a subtree that starts at the chunk with the given number. A subtree of more
than one chunk has all the chunks of its largest complete left subtree on the left. The first
argument bounds the height. -/
def subtree : Nat → Nat → Bytes → Node
  | 0, counter, bytes => chunkOutput counter bytes
  | n + 1, counter, bytes =>
    if bytes.length ≤ 1024 then chunkOutput counter bytes
    else
      let left := leftChunks 64 1 ((bytes.length + 1023) / 1024)
      join (subtree n counter (bytes.take (left * 1024))).compress
        (subtree n (counter + left) (bytes.drop (left * 1024))).compress

/-- The digest of the bytes, 32 bytes long. A tree of height 64 holds any input. -/
def hash (bytes : Bytes) : Bytes :=
  let node := subtree 64 0 bytes
  { node with marks := node.marks ||| root }.compress.flatMap wordBytes

end Blake3

end Sidecar
