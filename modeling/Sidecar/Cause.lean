/-!
# Causes

A failure that is passed up through several layers collects a line of text in each of them. A
`Cause` keeps these lines from the outermost down to the root, so that a caller can show either the
outermost line alone (`Cause.message`) or the whole story (`Cause.full`).
-/

namespace Sidecar

/-- A failure and what it was doing: the outermost line, then the lines beneath it down to the
root. A cause has at least one line, which is why the first one is a field of its own. -/
structure Cause where
  message : String
  beneath : List String
deriving DecidableEq, Repr, Inhabited

namespace Cause

/-- A failure with nothing beneath it. -/
def ofText (message : String) : Cause := ⟨message, []⟩

/-- Put a failure in context: `message` becomes the outermost line. -/
def within (message : String) (cause : Cause) : Cause :=
  ⟨message, cause.message :: cause.beneath⟩

/-- All lines, outermost first. -/
def lines (cause : Cause) : List String := cause.message :: cause.beneath

/-- All lines joined, outermost first. -/
def full (cause : Cause) : String := String.intercalate ": " cause.lines

end Cause

end Sidecar
