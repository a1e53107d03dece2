import DeviceStats.Regex.Search

/-!
# Pattern — declared patterns

Patterns come from configuration, so any text may stand where a pattern is meant.  A text that is
no regular expression is a pattern that matches nothing.
-/

namespace DeviceStats

/-- A pattern ready for use: the program of its text, if the text is a regular expression. -/
structure Pattern where
  program? : Option Regex.Program

namespace Pattern

def ofString (text : String) : Pattern := ⟨Regex.Program.compile? text⟩

/-- Whether the text of a pattern is a regular expression. -/
def isValid (p : Pattern) : Bool := p.program?.isSome

/-- Whether a pattern matches somewhere in a text. -/
def isMatch (p : Pattern) (subject : String) : Bool :=
  p.program?.any fun prog => (prog.search (.ofString subject)).isSome

/-- The text of a group of the first match; group 0 is the whole match. -/
def capture (p : Pattern) (subject : String) (group : Nat) : Option String := do
  let prog ← p.program?
  let s := Regex.Subject.ofString subject
  let marks ← prog.search s
  Regex.Program.group? s marks group

end Pattern

end DeviceStats
