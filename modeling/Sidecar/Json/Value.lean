import Sidecar.Bytes

/-!
# JSON values

A `Json.Value` keeps what a text says and not yet what it means. A string is the list of its
`Piece`s, raw bytes and escaped code units, because the same string is read strictly where a text
is wanted (`text?`) and leniently where bytes are wanted (`lenientBytes`). A number is its lexeme,
because an integer is recognised by its spelling. An object keeps its members in order and
repetitions included, because some readers refuse what others accept.
-/

namespace Sidecar

namespace Json

/-- One element between the quotes of a string: a byte as it stands, or an escape, which names a
16-bit code unit. -/
inductive Piece where
  | raw (byte : UInt8)
  | unit (code : UInt16)
deriving DecidableEq, Repr

/-- A number as it is spelled: sign, digits before the point, digits after it (none if there is no
point), and the exponent with its sign. -/
structure Number where
  negative : Bool
  whole : Nat
  fraction : List Nat
  exponent : Option (Bool × Nat)
deriving DecidableEq, Repr

/-- A JSON value. -/
inductive Value where
  | null
  | bool (value : Bool)
  | number (value : Number)
  | string (pieces : List Piece)
  | array (items : List Value)
  | object (members : List (List Piece × Value))
deriving Inhabited

/-! ## Strings -/

/-- Is the code unit the first half of a pair that stands for one character? -/
def isLeading (code : UInt16) : Bool := 0xD800 ≤ code && code ≤ 0xDBFF

/-- Is the code unit the second half of such a pair? -/
def isTrailing (code : UInt16) : Bool := 0xDC00 ≤ code && code ≤ 0xDFFF

/-- The code point a pair of halves stands for. -/
def joinHalves (leading trailing : UInt16) : Nat :=
  (leading.toNat - 0xD800) * 0x400 + (trailing.toNat - 0xDC00) + 0x10000

/-- The bytes of a code point. A lone half is spelled in three bytes like its neighbours, although
it is no character. -/
def codePointBytes (n : Nat) : Bytes :=
  if n < 0x80 then [UInt8.ofNat n]
  else if n < 0x800 then [UInt8.ofNat (0xC0 + n / 0x40), UInt8.ofNat (0x80 + n % 0x40)]
  else if n < 0x10000 then
    [UInt8.ofNat (0xE0 + n / 0x1000), UInt8.ofNat (0x80 + n / 0x40 % 0x40),
      UInt8.ofNat (0x80 + n % 0x40)]
  else
    [UInt8.ofNat (0xF0 + n / 0x40000), UInt8.ofNat (0x80 + n / 0x1000 % 0x40),
      UInt8.ofNat (0x80 + n / 0x40 % 0x40), UInt8.ofNat (0x80 + n % 0x40)]

/-- The bytes of a string where anything is accepted: control characters, bytes that are no UTF-8,
and lone halves. -/
def lenientBytes : List Piece → Bytes
  | [] => []
  | .raw byte :: rest => byte :: lenientBytes rest
  | [.unit code] => codePointBytes code.toNat
  | .unit code :: .raw byte :: rest => codePointBytes code.toNat ++ byte :: lenientBytes rest
  | .unit code :: .unit next :: rest =>
    if isLeading code && isTrailing next then
      codePointBytes (joinHalves code next) ++ lenientBytes rest
    else codePointBytes code.toNat ++ lenientBytes (.unit next :: rest)

/-- The bytes of a string where a text is wanted: no bare control character, no lone half. -/
def strictBytes? : List Piece → Option Bytes
  | [] => some []
  | .raw byte :: rest => if byte < 0x20 then none else (byte :: ·) <$> strictBytes? rest
  | .unit code :: rest =>
    if isLeading code then
      match rest with
      | .unit next :: rest =>
        if isTrailing next then (codePointBytes (joinHalves code next) ++ ·) <$> strictBytes? rest
        else none
      | _ => none
    else if isTrailing code then none
    else (codePointBytes code.toNat ++ ·) <$> strictBytes? rest

/-- The text a string spells, if it spells one. -/
def text? (pieces : List Piece) : Option String :=
  strictBytes? pieces >>= ofUtf8?

/-- Has the string no bare control character? Nothing more is asked of a string nobody reads. -/
def plain (pieces : List Piece) : Bool :=
  pieces.all fun
    | .raw byte => 0x20 ≤ byte
    | .unit _ => true

/-- The pieces of one character: control characters, the quote and the backslash are escaped. -/
def charPieces (c : Char) : List Piece :=
  if c.toNat < 0x20 ∨ c = '"' ∨ c = '\\' then [.unit (UInt16.ofNat c.toNat)]
  else (String.utf8EncodeChar c).map .raw

/-- The pieces that spell a text. -/
def ofText (text : String) : List Piece := text.toList.flatMap charPieces

/-! ## Numbers -/

/-- The number that spells a natural number. -/
def ofNat (n : Nat) : Number := ⟨false, n, [], none⟩

/-- The natural number that is spelled, if the spelling is that of one: no sign, no point and no
exponent. -/
def Number.nat? (n : Number) : Option Nat :=
  match n with
  | ⟨false, whole, [], none⟩ => some whole
  | _ => none

/-- The nearest number with at most 53 binary digits, the even one of two that are equally near. -/
def roundTo53 (n : Nat) : Nat :=
  let excess := n.log2 + 1 - 53
  let unit := Nat.pow 2 excess
  let quotient := n / unit
  let remainder := n % unit
  if unit < 2 * remainder ∨ (2 * remainder = unit ∧ quotient % 2 = 1) then (quotient + 1) * unit
  else quotient * unit

/-- The decimal digits of a number, most significant first. -/
def digits (n : Nat) : List Nat := (Nat.toDigits 10 n).map fun c => c.toNat - 48

/-- The largest significand that is kept exactly. -/
def significandLimit : Nat := 0xFFFFFFFFFFFFFFFF

/-- The leading digits before the point that make up a significand within the limit, and how many
digits are left out. -/
def leadingDigits : Nat → List Nat → Nat × Nat
  | significand, [] => (significand, 0)
  | significand, d :: rest =>
    if significand * 10 + d ≤ significandLimit then leadingDigits (significand * 10 + d) rest
    else (significand, rest.length + 1)

/-- The digits after the point continue a significand as long as it stays within the limit; the
rest is dropped. -/
def trailingDigits : Nat → Nat → List Nat → Nat × Nat
  | significand, kept, [] => (significand, kept)
  | significand, kept, d :: rest =>
    if significand * 10 + d ≤ significandLimit then
      trailingDigits (significand * 10 + d) (kept + 1) rest
    else (significand, kept)

/-- The least number that is rounded to infinity: half a unit above the largest finite number of
double precision. -/
def doubleBound : Nat := Nat.pow 2 1024 - Nat.pow 2 970

/-- Is `significand * 10 ^ exponent` within the range of a binary number of double precision, when
both factors and then the product are rounded? -/
def inDoubleRange (significand : Nat) (exponent : Int) : Bool :=
  if significand = 0 ∨ exponent < 0 then true
  else if 308 < exponent then false
  else roundTo53 significand * roundTo53 (Nat.pow 10 exponent.toNat) < doubleBound

/-- The largest exponent that is told from a larger one. -/
def exponentLimit : Nat := 0x7FFFFFFF

/-- Does the number have a finite value of double precision? -/
def Number.isFinite (n : Number) : Bool :=
  let (leading, omitted) := leadingDigits 0 (digits n.whole)
  let (significand, kept) := trailingDigits leading 0 n.fraction
  let shift : Int := (omitted : Int) - kept
  match n.exponent with
  | none => inDoubleRange significand shift
  | some (negative, size) =>
    if exponentLimit < size then significand = 0 || negative
    else inDoubleRange significand (if negative then shift - size else shift + size)

end Json

end Sidecar
