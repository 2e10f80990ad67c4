/-!
# Texts

Patterns and explanations are lists of glyphs, one glyph being one Unicode scalar value. Every
position, length and width in this library counts glyphs, from zero.

Explanations are made of lines. A line ends with a carriage return and a line feed
(`Text.lineEnd`), and is indented with spaces.
-/

namespace RegexGloss

/-- A text is a list of glyphs. -/
abbrev Text := List Char

namespace Text

/-! ## Lines -/

/-- The glyphs that end a line of an explanation. -/
def lineEnd : Text := ['\r', '\n']

/-- An indentation of `n` spaces. -/
def spaces (n : Nat) : Text := List.replicate n ' '

/-- A text without its leading spaces. -/
def dropSpaces (t : Text) : Text := t.dropWhile (· == ' ')

/-- Whether the last glyphs of a text end a line. -/
def endsLine (t : Text) : Bool := lineEnd.isSuffixOf t

/-- A text without the line end that closes it, if there is one. Only one is taken away. -/
def chomp (t : Text) : Text := if endsLine t then t.take (t.length - 2) else t

/-- A text in which a line feed alone ends each line. Other carriage returns stay. -/
def toLineFeeds : Text → Text
  | '\r' :: '\n' :: t => '\n' :: toLineFeeds t
  | c :: t => c :: toLineFeeds t
  | [] => []

theorem endsLine_iff (t : Text) : endsLine t = true ↔ lineEnd <:+ t := by
  simp [endsLine]

@[simp]
theorem endsLine_append_lineEnd (t : Text) : endsLine (t ++ lineEnd) = true := by
  simp [endsLine_iff]

@[simp]
theorem length_lineEnd : lineEnd.length = 2 := rfl

@[simp]
theorem chomp_append_lineEnd (t : Text) : chomp (t ++ lineEnd) = t := by
  simp [chomp]

@[simp]
theorem length_spaces (n : Nat) : (spaces n).length = n := by
  simp [spaces]

@[simp]
theorem dropSpaces_spaces_append (n : Nat) (t : Text) :
    dropSpaces (spaces n ++ t) = dropSpaces t := by
  induction n with
  | zero => simp [spaces]
  | succ n ih => simp_all [dropSpaces, spaces, List.replicate_succ]

/-! ## Numbers -/

/-- The decimal digits of a number. -/
def decimal (n : Nat) : Text := Nat.toDigits 10 n

end Text

end RegexGloss
