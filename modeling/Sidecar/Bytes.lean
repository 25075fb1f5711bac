/-!
# Bytes

Payloads, frames and files are lists of bytes. This module fixes the two views the rest of the
library needs of them: the UTF-8 encoding of a text (`utf8`, inverted by `ofUtf8?`), and the
lower-case hexadecimal spelling that fingerprints, tokens and file names use (`hex`).
-/

namespace Sidecar

/-- A run of bytes. -/
abbrev Bytes := List UInt8

/-- The UTF-8 encoding of a text, character by character. -/
def utf8 (text : String) : Bytes :=
  text.toList.flatMap String.utf8EncodeChar

/-- The text whose UTF-8 encoding the bytes are, if they are one. -/
def ofUtf8? (bytes : Bytes) : Option String :=
  String.fromUTF8? bytes.toByteArray

/-- The lower-case hexadecimal digit of a number below 16. -/
def hexDigit (n : Nat) : Char :=
  Char.ofNat (if n < 10 then 48 + n else 87 + n)

/-- Two hexadecimal digits per byte, high digit first. -/
def hex (bytes : Bytes) : String :=
  String.ofList (bytes.flatMap fun b => [hexDigit (b.toNat / 16), hexDigit (b.toNat % 16)])

end Sidecar
