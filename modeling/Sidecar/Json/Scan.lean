import Sidecar.Json.Value

/-!
# Reading JSON

A text is read one byte at a time. A `Reader` is what has been understood so far: the part of the
current lexeme (`Lexeme`) and the part of the value (`Partial`). `Reader.read` adds one byte, so
reading a text is a fold over its bytes (`parse?`), and reading the concatenation of two texts is
reading the second from where the first ended.

A lexeme that ends by itself, such as a string or a bracket, is handed on as a `Lexical` token at
once. Numbers and words end with the first byte that does not belong to them.
-/

namespace Sidecar

namespace Json

/-- A lexical token. -/
inductive Lexical where
  | openArray
  | closeArray
  | openObject
  | closeObject
  | comma
  | colon
  | scalar (value : Value)

/-! ## The grammar over tokens -/

/-- An array or object that is open around the value being read, with what it holds so far, the
last item first. -/
inductive Frame where
  | item (before : List Value)
  | member (before : List (List Piece × Value)) (key : List Piece)

/-- What the grammar expects next, inside the frames that are open. -/
inductive Partial where
  | value (frames : List Frame)
  | firstItem (frames : List Frame)
  | afterItem (before : List Value) (frames : List Frame)
  | firstKey (frames : List Frame)
  | nextKey (before : List (List Piece × Value)) (frames : List Frame)
  | afterKey (before : List (List Piece × Value)) (key : List Piece) (frames : List Frame)
  | afterMember (before : List (List Piece × Value)) (frames : List Frame)
  | complete (value : Value)

/-- A value is complete: it goes to the innermost frame. -/
def Partial.deliver (value : Value) : List Frame → Partial
  | [] => .complete value
  | .item before :: frames => .afterItem (value :: before) frames
  | .member before key :: frames => .afterMember ((key, value) :: before) frames

/-- One token further, if the grammar allows it. -/
def Partial.accept : Partial → Lexical → Option Partial
  | .value frames, .scalar v => some (deliver v frames)
  | .value frames, .openArray => some (.firstItem frames)
  | .value frames, .openObject => some (.firstKey frames)
  | .firstItem frames, .closeArray => some (deliver (.array []) frames)
  | .firstItem frames, .scalar v => some (deliver v (.item [] :: frames))
  | .firstItem frames, .openArray => some (.firstItem (.item [] :: frames))
  | .firstItem frames, .openObject => some (.firstKey (.item [] :: frames))
  | .afterItem before frames, .comma => some (.value (.item before :: frames))
  | .afterItem before frames, .closeArray => some (deliver (.array before.reverse) frames)
  | .firstKey frames, .closeObject => some (deliver (.object []) frames)
  | .firstKey frames, .scalar (.string key) => some (.afterKey [] key frames)
  | .nextKey before frames, .scalar (.string key) => some (.afterKey before key frames)
  | .afterKey before key frames, .colon => some (.value (.member before key :: frames))
  | .afterMember before frames, .comma => some (.nextKey before frames)
  | .afterMember before frames, .closeObject => some (deliver (.object before.reverse) frames)
  | _, _ => none

/-! ## Lexemes -/

/-- Is the byte a decimal digit? -/
def isDigit (b : UInt8) : Bool := 48 ≤ b && b ≤ 57

/-- Is the byte one of a number's: a digit, a sign, a point or an exponent mark? -/
def isNumberByte (b : UInt8) : Bool :=
  isDigit b || b == 43 || b == 45 || b == 46 || b == 69 || b == 101

/-- Is the byte a lower-case letter? -/
def isLetter (b : UInt8) : Bool := 97 ≤ b && b ≤ 122

/-- Is the byte white space between tokens: a space, a tabulator, a line feed or a carriage
return? -/
def isSpace (b : UInt8) : Bool := b == 32 || b == 9 || b == 10 || b == 13

/-- The bytes from the front that are digits, as numbers, and the rest. -/
def takeDigits : Bytes → List Nat × Bytes
  | [] => ([], [])
  | b :: rest =>
    if isDigit b then
      let (ds, rest) := takeDigits rest
      ((b.toNat - 48) :: ds, rest)
    else ([], b :: rest)

/-- The number that decimal digits spell. -/
def ofDigits (ds : List Nat) : Nat := ds.foldl (fun n d => n * 10 + d) 0

/-- The digits after a point and the rest. Without a point there are none; with one there must be
some. -/
def fraction? : Bytes → Option (List Nat × Bytes)
  | 46 :: rest =>
    match takeDigits rest with
    | ([], _) => none
    | (ds, rest) => some (ds, rest)
  | rest => some ([], rest)

/-- The exponent, if the bytes are that of one, or nothing if there are no bytes. -/
def exponent? : Bytes → Option (Option (Bool × Nat))
  | [] => some none
  | mark :: rest =>
    if mark = 69 ∨ mark = 101 then
      let (negative, rest) : Bool × Bytes :=
        match rest with
        | 43 :: rest => (false, rest)
        | 45 :: rest => (true, rest)
        | rest => (false, rest)
      match takeDigits rest with
      | (d :: ds, []) => some (some (negative, ofDigits (d :: ds)))
      | _ => none
    else none

/-- The digits before the point: at least one, and no zero in front of another. -/
def whole? (bytes : Bytes) : Option (Nat × Bytes) :=
  match takeDigits bytes with
  | ([], _) => none
  | (0 :: _ :: _, _) => none
  | (ds, rest) => some (ofDigits ds, rest)

/-- The number a lexeme spells. -/
def number? (bytes : Bytes) : Option Number := do
  let (negative, bytes) : Bool × Bytes :=
    match bytes with
    | 45 :: rest => (true, rest)
    | bytes => (false, bytes)
  let (whole, bytes) ← whole? bytes
  let (fraction, bytes) ← fraction? bytes
  let exponent ← exponent? bytes
  return ⟨negative, whole, fraction, exponent⟩

/-- The constant a word names. -/
def word? (bytes : Bytes) : Option Value :=
  if bytes = [110, 117, 108, 108] then some .null
  else if bytes = [116, 114, 117, 101] then some (.bool true)
  else if bytes = [102, 97, 108, 115, 101] then some (.bool false)
  else none

/-- The code unit that a one-letter escape names. -/
def escape? (b : UInt8) : Option UInt16 :=
  if b = 34 ∨ b = 92 ∨ b = 47 then some b.toUInt16
  else if b = 98 then some 8
  else if b = 102 then some 12
  else if b = 110 then some 10
  else if b = 114 then some 13
  else if b = 116 then some 9
  else none

/-- The value of a hexadecimal digit. -/
def hexValue? (b : UInt8) : Option Nat :=
  if isDigit b then some (b.toNat - 48)
  else if 97 ≤ b && b ≤ 102 then some (b.toNat - 87)
  else if 65 ≤ b && b ≤ 70 then some (b.toNat - 55)
  else none

/-- The lexeme being read, what is known of it last byte first. -/
inductive Lexeme where
  | none
  | string (before : List Piece)
  | escape (before : List Piece)
  | unit (before : List Piece) (left : Nat) (code : Nat)
  | number (before : Bytes)
  | word (before : Bytes)

/-- What has been understood of a text so far. -/
structure Reader where
  lexeme : Lexeme
  state : Partial

namespace Reader

/-- Nothing read yet. -/
def start : Reader := ⟨.none, .value []⟩

/-- Hand a token to the grammar, with no lexeme left over. -/
def emit (state : Partial) (token : Lexical) : Option Reader :=
  (state.accept token).map fun state => ⟨.none, state⟩

/-- The bracket, comma or colon a byte is. -/
def punctuation? (b : UInt8) : Option Lexical :=
  if b = 0x5b then some .openArray
  else if b = 0x5d then some .closeArray
  else if b = 0x7b then some .openObject
  else if b = 0x7d then some .closeObject
  else if b = 44 then some .comma
  else if b = 58 then some .colon
  else none

/-- A byte that starts a lexeme or is one. -/
def fresh (state : Partial) (b : UInt8) : Option Reader :=
  if isSpace b then some ⟨.none, state⟩
  else if b = 34 then some ⟨.string [], state⟩
  else if isDigit b || b == 45 then some ⟨.number [b], state⟩
  else if isLetter b then some ⟨.word [b], state⟩
  else punctuation? b >>= emit state

/-- Finish a number or a word that ends here. Nothing else can end without a byte of its own. -/
def flush (reader : Reader) : Option Partial :=
  match reader.lexeme with
  | .none => some reader.state
  | .number before => do reader.state.accept (.scalar (.number (← number? before.reverse)))
  | .word before => do reader.state.accept (.scalar (← word? before.reverse))
  | _ => none

/-- One byte further. -/
def read (reader : Reader) (b : UInt8) : Option Reader :=
  match reader.lexeme with
  | .none => fresh reader.state b
  | .string before =>
    if b = 34 then emit reader.state (.scalar (.string before.reverse))
    else if b = 92 then some ⟨.escape before, reader.state⟩
    else some ⟨.string (.raw b :: before), reader.state⟩
  | .escape before =>
    if b = 117 then some ⟨.unit before 3 0, reader.state⟩
    else (escape? b).map fun code => ⟨.string (.unit code :: before), reader.state⟩
  | .unit before left code =>
    (hexValue? b).map fun d =>
      match left with
      | 0 => ⟨.string (.unit (UInt16.ofNat (code * 16 + d)) :: before), reader.state⟩
      | left + 1 => ⟨.unit before left (code * 16 + d), reader.state⟩
  | .number before =>
    if isNumberByte b then some ⟨.number (b :: before), reader.state⟩
    else do fresh (← reader.flush) b
  | .word before =>
    if isLetter b then some ⟨.word (b :: before), reader.state⟩
    else do fresh (← reader.flush) b

/-- The value, if the text may end here. -/
def finish (reader : Reader) : Option Value :=
  match reader.flush with
  | some (.complete value) => some value
  | _ => none

end Reader

/-- The value of a text that is exactly one value, with white space allowed around its tokens. -/
def parse? (text : Bytes) : Option Value := do
  (← text.foldlM Reader.read Reader.start).finish

end Json

end Sidecar
