import Sidecar.Toml.Node

/-!
# Numbers, dates and words in TOML

A value that is neither quoted nor bracketed is a run of characters (`inRun`), and what it means is
decided from the whole run. A date and a time of day may be separated by a blank instead of a
letter, so a run that is a date is continued behind a blank if a digit follows there.
-/

namespace Sidecar

namespace Toml

/-- May the character stand in such a run? -/
def inRun (c : Char) : Bool :=
  c.isAlphanum || c == '+' || c == '-' || c == '.' || c == ':' || c == '_'

/-- Are the characters digits with single underscores between them? -/
def isDigitRun (isDigit : Char → Bool) : List Char → Bool
  | [] => false
  | [c] => isDigit c
  | c :: '_' :: rest => isDigit c && isDigitRun isDigit rest
  | c :: rest => isDigit c && isDigitRun isDigit rest

/-- The number that digits spell in a base. Underscores do not count. -/
def digitsValue (base : Nat) (ds : List Char) : Nat :=
  ds.foldl (fun n c =>
    if c = '_' then n
    else if c.isDigit then n * base + (c.toNat - 48)
    else if 'a' ≤ c then n * base + (c.toNat - 87)
    else n * base + (c.toNat - 55)) 0

/-- Are the characters a whole number without a leading zero? -/
def isWhole (ds : List Char) : Bool :=
  isDigitRun Char.isDigit ds && (ds.head? != some '0' || ds.length == 1)

/-- A sign and what it stands before. -/
def splitSign : List Char → Bool × List Char
  | '+' :: rest => (false, rest)
  | '-' :: rest => (true, rest)
  | text => (false, text)

/-! ## Integers -/

/-- One past the largest integer. -/
def integerBound : Nat := 0x8000000000000000

/-- An integer in the given base, if the characters are its digits and it is in range. -/
def based? (base : Nat) (isDigit : Char → Bool) (ds : List Char) : Option Node :=
  if isDigitRun isDigit ds ∧ digitsValue base ds < integerBound then
    some (.integer (digitsValue base ds))
  else none

/-- Is the character a hexadecimal digit? -/
def isHex (c : Char) : Bool := c.isDigit || ('a' ≤ c && c ≤ 'f') || ('A' ≤ c && c ≤ 'F')

/-- An integer: in base 16, 8 or 2 after a prefix, or in base 10 with an optional sign. -/
def integer? : List Char → Option Node
  | '0' :: 'x' :: ds => based? 16 isHex ds
  | '0' :: 'o' :: ds => based? 8 (fun c => '0' ≤ c && c ≤ '7') ds
  | '0' :: 'b' :: ds => based? 2 (fun c => c == '0' || c == '1') ds
  | text =>
    let (negative, ds) := splitSign text
    let n := digitsValue 10 ds
    if isWhole ds ∧ (n < integerBound ∨ (negative ∧ n = integerBound)) then
      some (.integer (if negative then -n else n))
    else none

/-! ## Floating-point numbers -/

/-- From here on an exponent is large enough: further digits do not count. -/
def exponentLimit : Nat := 0x10000

/-- The number that the digits of an exponent spell. Underscores do not count, and the digits behind
a number that has reached the limit do not either. -/
def exponentValue (ds : List Char) : Nat :=
  ds.foldl (fun n c => if c = '_' ∨ exponentLimit ≤ n then n else n * 10 + (c.toNat - 48)) 0

/-- An exponent after its mark: an optional sign and digits. -/
def exponent? (text : List Char) : Option Int :=
  let (negative, ds) := splitSign text
  if isDigitRun Char.isDigit ds then
    some (if negative then -(exponentValue ds) else exponentValue ds)
  else none

/-- The least number that is rounded to infinity: half a unit above the largest finite number of
double precision. -/
def doubleBound : Nat := Nat.pow 2 1024 - Nat.pow 2 970

/-- Is the number that digits spell, times ten to the exponent, too large to be rounded to a finite
number? How many places it has before the point settles it unless it is near the bound. -/
def isInfinite (digits : List Char) (exponent : Int) : Bool :=
  let digits := digits.dropWhile fun c => c = '0'
  let places : Int := digits.length + exponent
  if digits = [] ∨ places ≤ 300 then false
  else if 400 < places then true
  else if 0 ≤ exponent then doubleBound ≤ digitsValue 10 digits * Nat.pow 10 exponent.toNat
  else doubleBound * Nat.pow 10 (-exponent).toNat ≤ digitsValue 10 digits

/-- A number from its digits before and after the point and its exponent. A positive one must be
finite. -/
def finite? (negative : Bool) (whole fraction : List Char) (exponent : Int) : Option Node :=
  let whole := whole.filter (· ≠ '_')
  let fraction := fraction.filter (· ≠ '_')
  if !negative && isInfinite (whole ++ fraction) (exponent - fraction.length) then none
  else some .float

/-- May the character stand among the digits of a number? -/
def inDigits (c : Char) : Bool := c.isDigit || c == '_'

/-- Is the character the mark of an exponent? -/
def isMark (c : Char) : Bool := c == 'e' || c == 'E'

/-- A floating-point number: with a point, with an exponent or with both, or one of the special
words. -/
def float? (text : List Char) : Option Node :=
  let (negative, text) := splitSign text
  if text = "inf".toList ∨ text = "nan".toList then some .float
  else
    let (whole, rest) := text.span inDigits
    if !isWhole whole then none
    else
      match rest with
      | '.' :: rest =>
        let (fraction, rest) := rest.span inDigits
        if !isDigitRun Char.isDigit fraction then none
        else
          match rest with
          | [] => finite? negative whole fraction 0
          | mark :: rest =>
            if isMark mark then exponent? rest >>= finite? negative whole fraction else none
      | mark :: rest => if isMark mark then exponent? rest >>= finite? negative whole [] else none
      | [] => none

/-! ## Dates and times -/

/-- The number of two digits, if it is in the range. -/
def twoDigits? (low high : Nat) (a b : Char) : Option Nat :=
  let n := (a.toNat - 48) * 10 + (b.toNat - 48)
  if a.isDigit ∧ b.isDigit ∧ low ≤ n ∧ n ≤ high then some n else none

/-- The number of days of a month. -/
def daysIn (year month : Nat) : Nat :=
  if month = 2 then
    if year % 4 = 0 ∧ (year % 100 ≠ 0 ∨ year % 400 = 0) then 29 else 28
  else if month = 4 ∨ month = 6 ∨ month = 9 ∨ month = 11 then 30
  else 31

/-- The rest after a date. -/
def date? : List Char → Option (List Char)
  | y1 :: y2 :: y3 :: y4 :: '-' :: m1 :: m2 :: '-' :: d1 :: d2 :: rest => do
    if ¬([y1, y2, y3, y4].all Char.isDigit) then none
    let month ← twoDigits? 1 12 m1 m2
    let _ ← twoDigits? 1 (daysIn (digitsValue 10 [y1, y2, y3, y4]) month) d1 d2
    return rest
  | _ => none

/-- The rest after a time of day. -/
def time? : List Char → Option (List Char)
  | h1 :: h2 :: ':' :: m1 :: m2 :: ':' :: s1 :: s2 :: rest => do
    let _ ← twoDigits? 0 23 h1 h2
    let _ ← twoDigits? 0 59 m1 m2
    let _ ← twoDigits? 0 60 s1 s2
    match rest with
    | '.' :: rest =>
      match rest.span Char.isDigit with
      | ([], _) => none
      | (_, rest) => return rest
    | rest => return rest
  | _ => none

/-- Is the text nothing, or the distance of a time from the universal one? -/
def isOffset : List Char → Bool
  | [] => true
  | ['Z'] | ['z'] => true
  | [sign, h1, h2, ':', m1, m2] =>
    (sign == '+' || sign == '-') && (twoDigits? 0 23 h1 h2).isSome && (twoDigits? 0 59 m1 m2).isSome
  | _ => false

/-- A date, a time of day, or both with an optional distance from the universal time. -/
def datetime? (text : List Char) : Option Node :=
  match date? text with
  | some [] => some .datetime
  | some (mark :: rest) =>
    if mark = 'T' ∨ mark = 't' ∨ mark = ' ' then
      match time? rest with
      | some rest => if isOffset rest then some .datetime else none
      | none => none
    else none
  | none =>
    match time? text with
    | some [] => some .datetime
    | _ => none

/-! ## Runs -/

/-- The value of a run. -/
def scalar? (run : List Char) : Option Node :=
  if run = "true".toList then some (.boolean true)
  else if run = "false".toList then some (.boolean false)
  else datetime? run <|> float? run <|> integer? run

/-- Take a run off the front: with the time behind a blank if it is a date. -/
def takeRun (text : List Char) : List Char × List Char :=
  let (run, rest) := text.span inRun
  match date? run, rest with
  | some [], ' ' :: d :: more =>
    if d.isDigit then
      let (time, rest) := (d :: more).span inRun
      (run ++ ' ' :: time, rest)
    else (run, rest)
  | _, _ => (run, rest)

end Toml

end Sidecar
