import RegexGloss.Text.Basic

/-!
# Options

Five letters name the options of a regular expression. A letter can be switched on for a whole
pattern, or on and off inside it (`(?i-m)`). Only two of them change how a pattern is read: with
`x` blanks and comments are skipped, and with `n` plain parentheses do not capture.
-/

namespace RegexGloss

/-! ## Option letters -/

/-- An option that a letter names. -/
inductive Flag where
  /-- Letters match in either case. -/
  | ignoreCase
  /-- The anchors match at every line. -/
  | multiline
  /-- Plain parentheses do not capture. -/
  | explicitCapture
  /-- The dot matches line ends too. -/
  | singleline
  /-- Blanks and comments in the pattern are skipped. -/
  | ignoreWhitespace
  deriving DecidableEq, Repr

namespace Flag

/-- The letter that names an option. -/
def letter : Flag → Char
  | ignoreCase => 'i'
  | multiline => 'm'
  | explicitCapture => 'n'
  | singleline => 's'
  | ignoreWhitespace => 'x'

/-- The option that a letter names. -/
def ofLetter? : Char → Option Flag
  | 'i' => some ignoreCase
  | 'm' => some multiline
  | 'n' => some explicitCapture
  | 's' => some singleline
  | 'x' => some ignoreWhitespace
  | _ => none

/-- The name of an option in an explanation. -/
def name : Flag → Text
  | ignoreCase => "Ignore Case".toList
  | multiline => "Multiline".toList
  | explicitCapture => "Explicit Capture".toList
  | singleline => "Singleline".toList
  | ignoreWhitespace => "Ignore Whitespace".toList

@[simp]
theorem ofLetter?_letter (f : Flag) : ofLetter? f.letter = some f := by
  cases f <;> rfl

end Flag

/-! ## Settings inside a pattern -/

/-- An option switched on or off inside a pattern. -/
structure Setting where
  /-- The option that is set. -/
  flag : Flag
  /-- Whether it is switched on. -/
  enabled : Bool
  deriving DecidableEq, Repr

/-- How an explanation names a setting. -/
def Setting.describe (s : Setting) : Text :=
  if s.enabled then s.flag.name else s.flag.name ++ " Off".toList

/-! ## Options of a whole pattern -/

/-- The options that change how a pattern is read. Both are off unless set. -/
structure Options where
  /-- Blanks and comments are skipped. -/
  ignoreWhitespace : Bool := false
  /-- Plain parentheses do not capture. -/
  explicitCapture : Bool := false
  deriving DecidableEq, Repr

/-- A letter that names no option. -/
structure UnknownLetter where
  /-- The letter as it was given. -/
  letter : Char
  deriving DecidableEq, Repr

/-- How an unknown letter is reported. -/
def UnknownLetter.message (u : UnknownLetter) : Text :=
  "unknown option letter '".toList ++ [u.letter, '\x27']

namespace Options

/-- Switches an option on or off. The options that do not change how a pattern is read are not
kept. -/
def set (o : Options) (f : Flag) (on : Bool) : Options :=
  match f with
  | .ignoreWhitespace => { o with ignoreWhitespace := on }
  | .explicitCapture => { o with explicitCapture := on }
  | _ => o

/-- Switches on the option that a letter names. -/
def setLetter (o : Options) (c : Char) : Except UnknownLetter Options :=
  match Flag.ofLetter? c with
  | some f => .ok (o.set f true)
  | none => .error ⟨c⟩

/-- Switches on the options that letters name, from left to right. The first letter that names no
option is reported. -/
def ofLetters (letters : Text) : Except UnknownLetter Options :=
  letters.foldlM setLetter {}

end Options

end RegexGloss
