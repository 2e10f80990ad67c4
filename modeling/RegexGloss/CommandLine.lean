import RegexGloss.Reader
import RegexGloss.Text.Blank

/-!
# The command line

The command explains the pattern given to it. It takes the options `-x` (`--ignore-whitespace`) and
`-n` (`--explicit-capture`), and `--at` with an offset to show the construct at that glyph too.

How arguments are written is not laid down here. `runCommand` is given a reader of arguments, which
either says what is in them (`Arguments`) or ends the command with an answer of its own, as when it
is asked how the command is used.

What the command prints and its exit code are values; only the outermost layer prints them.
-/

namespace RegexGloss

/-! ## Requests -/

/-- What the command is asked to do. -/
structure Request where
  /-- The pattern to explain. -/
  pattern : Text
  /-- How to read it. -/
  options : Options
  /-- The glyph to look up. -/
  lookAt : Option Nat
  deriving DecidableEq, Repr

/-- What a reader of arguments finds in them. -/
structure Arguments where
  /-- The pattern, if it is there. -/
  pattern : Option Text
  /-- Whether `-x` is there. -/
  ignoreWhitespace : Bool
  /-- Whether `-n` is there. -/
  explicitCapture : Bool
  /-- The offset behind `--at`, if it is there. -/
  lookAt : Option Nat
  deriving DecidableEq, Repr

/-- The request that arguments make. Without a pattern there is none. -/
def Arguments.request? (a : Arguments) : Option Request :=
  a.pattern.map fun pattern =>
    { pattern
      options :=
        { ignoreWhitespace := a.ignoreWhitespace, explicitCapture := a.explicitCapture }
      lookAt := a.lookAt }

/-! ## Answers -/

/-- What the command prints, and its exit code. -/
structure Answer where
  /-- The exit code. -/
  code : Nat
  /-- The text for standard output. -/
  out : Text := []
  /-- The text for standard error. -/
  err : Text := []
  deriving DecidableEq, Repr

namespace Answer

/-- Points at a stretch of a pattern: the pattern, and carets below the stretch. An empty stretch
is shown by one caret. -/
def pointAt (pattern : Text) (l : Location) : Text :=
  let margin := Text.spaces 2
  margin ++ pattern ++ ['\n'] ++
    margin ++ Text.spaces l.offset ++ List.replicate (max l.length 1) '^' ++ ['\n']

/-- The report of a fault. -/
def ofFault (pattern : Text) (f : Fault) (l : Location) : Answer where
  code := 1
  err := "error: ".toList ++ f.message ++ ['\n'] ++ pointAt pattern l

/-- The line that shows the construct found at a glyph. Blanks at its end are left out. -/
def found (offset : Nat) : Option Span → Text
  | some s =>
    Text.decimal s.start ++ "..=".toList ++ Text.decimal s.stop ++ ": ".toList ++
      Text.trimEnd s.text ++ ['\n']
  | none => "no construct at ".toList ++ Text.decimal offset ++ ['\n']

/-- The explanation with line feeds alone as line ends, and after an empty line the construct that
was asked for. -/
def ofExplanation (e : Explanation) (lookAt : Option Nat) : Answer where
  code := 0
  out := Text.toLineFeeds e.text ++
    match lookAt with
    | some offset => '\n' :: found offset (e.lookup offset)
    | none => []

end Answer

/-- Answers a request. -/
def Request.answer (r : Request) : Answer :=
  let (result, reader) := Reader.read { pattern := r.pattern, options := r.options }
  match result with
  | .ok e => .ofExplanation e r.lookAt
  | .error f => .ofFault r.pattern f (reader.firstFault.getD f.location)

/-- Runs the command with arguments and a reader of them. If the reader ends the command, its answer
is all there is; if it finds no pattern, the command fails without a word. -/
def runCommand (readArgs : List Text → Except Answer Arguments) (args : List Text) : Answer :=
  match readArgs args with
  | .error answer => answer
  | .ok a =>
    match a.request? with
    | some request => request.answer
    | none => { code := 1 }

end RegexGloss
