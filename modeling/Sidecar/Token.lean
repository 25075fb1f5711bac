import Sidecar.Blake3

/-!
# The communication token

Every message a worker sends must present the secret that its agent was started with. `Token.check`
accepts exactly the texts whose digest is the secret's digest, except the empty text, which counts
as no token at all: a token with an empty secret accepts nothing. A token is shown by its
`Token.fingerprint`, never by its secret.
-/

namespace Sidecar

/-- Why a presented token is refused. -/
inductive Refusal where
  | missing
  | wrong
deriving DecidableEq, Repr

/-- The text a refused worker is answered with. -/
def Refusal.message : Refusal → String
  | missing => "Missing communication token"
  | wrong => "Wrong communication token"

/-- The secret of one agent. -/
structure Token where
  secret : String
deriving DecidableEq

namespace Token

/-- The digest under which tokens are compared. -/
def digest (text : String) : Bytes := Blake3.hash (utf8 text)

/-- Why the presented text is refused, or `none` if it is accepted. -/
def refusal? (token : Token) (presented : String) : Option Refusal :=
  if presented = "" then some .missing
  else if digest presented = digest token.secret then none
  else some .wrong

/-- The first four bytes of the secret's digest, in hexadecimal: tells tokens apart in a log. -/
def fingerprint (token : Token) : String := hex ((digest token.secret).take 4)

/-- The token on one line. -/
def render (token : Token) : String :=
  "CommunicationToken \x7b fingerprint: \"" ++ token.fingerprint ++ "\" \x7d"

/-- The token on several lines. -/
def renderLines (token : Token) : String :=
  "CommunicationToken \x7b\n    fingerprint: \"" ++ token.fingerprint ++ "\",\n\x7d"

/-- The token made of 32 random bytes: their hexadecimal spelling. -/
def ofEntropy (bytes : Bytes) : Token := ⟨hex bytes⟩

end Token

end Sidecar
