import RegexGloss.Text.Basic

/-!
# Faults

A pattern that cannot be read has one fault: its cause, and the glyph where the cause shows. A
fault has a message and a location, the stretch of the pattern to point at.
-/

namespace RegexGloss

/-- A stretch of a pattern. -/
structure Location where
  /-- The first glyph of the stretch. -/
  offset : Nat
  /-- The number of glyphs; a stretch of no glyphs is the place before its offset. -/
  length : Nat
  deriving DecidableEq, Repr

/-- Why a pattern cannot be read. -/
inductive Cause where
  /-- The pattern ends where a glyph is needed. -/
  | endOfPattern
  /-- An opening `(?` that starts no known kind of group. -/
  | unknownGroup
  /-- A parenthesis that is never closed. -/
  | unclosedGroup
  /-- A glyph other than `)` where a group has to close. -/
  | closeExpected
  /-- A second `|` between the branches of a conditional. -/
  | surplusBar
  /-- A `)` that closes nothing. -/
  | surplusClose
  deriving DecidableEq, Repr

/-- What makes a pattern unreadable, and where. -/
structure Fault where
  /-- Why the pattern cannot be read. -/
  cause : Cause
  /-- The glyph where the cause shows. -/
  pos : Nat
  deriving DecidableEq, Repr

namespace Cause

/-- The words that report a cause, up to the position. -/
def words : Cause → Text
  | endOfPattern => "unexpected end of pattern".toList
  | unknownGroup => "unrecognized grouping construct".toList
  | unclosedGroup => "missing ')' for group opened".toList
  | closeExpected => "expected ')'".toList
  | surplusBar => "too many '|' in conditional subexpression".toList
  | surplusClose => "too many ')'s".toList

/-- The number of glyphs to point at. -/
def extent : Cause → Nat
  | endOfPattern => 0
  | unknownGroup => 2
  | unclosedGroup | closeExpected | surplusBar | surplusClose => 1

end Cause

namespace Fault

/-- The report of a fault. -/
def message (f : Fault) : Text := f.cause.words ++ " at ".toList ++ Text.decimal f.pos

/-- The stretch of the pattern to point at. -/
def location (f : Fault) : Location := ⟨f.pos, f.cause.extent⟩

end Fault

end RegexGloss
