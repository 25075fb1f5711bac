import Sidecar.Json.Value

/-!
# Writing JSON

`Value.print` writes a value without any white space. Strings are written as their pieces: raw
bytes as they stand, code units by their one-letter escape where they have one and in four
hexadecimal digits otherwise.
-/

namespace Sidecar

namespace Json

/-- The byte of an ASCII character. -/
def byte (c : Char) : UInt8 := UInt8.ofNat c.toNat

/-- The decimal digits of a natural number. -/
def decimal (n : Nat) : Bytes := (Nat.toDigits 10 n).map byte

/-- Four hexadecimal digits of a code unit. -/
def fourHex (code : UInt16) : Bytes :=
  let n := code.toNat
  [n / 0x1000, n / 0x100 % 16, n / 0x10 % 16, n % 16].map fun d => byte (hexDigit d)

/-- The letter of a code unit's escape, if it has one. -/
def escapeLetter? (code : UInt16) : Option UInt8 :=
  if code = 34 then some 34
  else if code = 92 then some 92
  else if code = 8 then some 98
  else if code = 12 then some 102
  else if code = 10 then some 110
  else if code = 13 then some 114
  else if code = 9 then some 116
  else none

/-- How a piece is written. -/
def Piece.print : Piece → Bytes
  | .raw b => [b]
  | .unit code =>
    match escapeLetter? code with
    | some letter => [92, letter]
    | none => 92 :: 117 :: fourHex code

/-- A string with its quotes. -/
def printString (pieces : List Piece) : Bytes :=
  34 :: (pieces.flatMap Piece.print ++ [34])

/-- A number as it is spelled, with a small exponent mark. -/
def Number.print (n : Number) : Bytes :=
  (if n.negative then [45] else []) ++ decimal n.whole ++
    (if n.fraction = [] then [] else 46 :: n.fraction.flatMap decimal) ++
    match n.exponent with
    | none => []
    | some (negative, size) => 101 :: ((if negative then [45] else []) ++ decimal size)

mutual

/-- The text of a value, without white space. -/
def Value.print : Value → Bytes
  | .null => [110, 117, 108, 108]
  | .bool true => [116, 114, 117, 101]
  | .bool false => [102, 97, 108, 115, 101]
  | .number n => n.print
  | .string pieces => printString pieces
  | .array [] => [0x5b, 0x5d]
  | .array (item :: items) => 0x5b :: (item.print ++ printItems items)
  | .object [] => [0x7b, 0x7d]
  | .object (member :: members) => 0x7b :: (printMember member ++ printMembers members)

/-- The items after the first, and the end of their array. -/
def printItems : List Value → Bytes
  | [] => [0x5d]
  | item :: items => 44 :: (item.print ++ printItems items)

/-- A key, a colon and a value. -/
def printMember : List Piece × Value → Bytes
  | (key, value) => printString key ++ 58 :: value.print

/-- The members after the first, and the end of their object. -/
def printMembers : List (List Piece × Value) → Bytes
  | [] => [0x7d]
  | member :: members => 44 :: (printMember member ++ printMembers members)

end

end Json

end Sidecar
