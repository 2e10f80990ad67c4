import RegexGloss.Node.Basic
import RegexGloss.Opener

/-!
# Escapes

A backslash gives the glyphs behind it another meaning. Some letters are shorthands with a fixed
description; `c`, `u` and `x` take one, four and two more glyphs, whatever these are; `k<name>`
refers back to a capture. Any other glyph stands for itself.
-/

namespace RegexGloss

/-- What a backslash and the glyphs behind it stand for. -/
inductive Escape where
  /-- What the capture of this name matched. -/
  | backreference (name : Text)
  /-- A control character. -/
  | control (glyph : Char)
  /-- A character by its code in four digits. -/
  | unicode (digits : Text)
  /-- A character by its code in two digits. -/
  | hex (digits : Text)
  /-- A shorthand with this description. -/
  | shorthand (description : Text)
  /-- A space, which is written out in an explanation. -/
  | space
  /-- A glyph that stands for itself. -/
  | literal (glyph : Char)
  deriving DecidableEq, Repr

/-- How an explanation writes a space. -/
def spaceMark : Text := "' ' (space)".toList

namespace Escape

/-- The description of a letter that is a shorthand. -/
def shorthand? : Char → Option Text
  | 'a' => some "Bell (alarm) \\u0007 ".toList
  | 't' => some "Tab \\u0009 ".toList
  | 'r' => some "Carriage return \\u000D ".toList
  | 'v' => some "Vertical tab \\u000B ".toList
  | 'f' => some "Form feed \\u000C ".toList
  | 'n' => some "New line \\u000A ".toList
  | 'e' => some "Escape \\u001B ".toList
  | 'w' => some "Any word character ".toList
  | 'W' => some "Any non-word character ".toList
  | 's' => some "Any whitespace character ".toList
  | 'S' => some "Any non-whitespace character ".toList
  | 'd' => some "Any digit ".toList
  | 'D' => some "Any non-digit ".toList
  | 'A' => some "Anchor to start of string (ignore multiline)".toList
  | 'Z' => some "Anchor to end of string or before \\n (ignore multiline)".toList
  | 'z' => some "Anchor to end of string (ignore multiline)".toList
  | 'b' => some "At a word boundary (between \\w and \\W)".toList
  | 'B' => some "Not at a word boundary (between \\w and \\W)".toList
  | _ => none

/-- The atom that an escape is in a tree. Only glyphs that stand for themselves are literals. -/
def atom : Escape → Atom
  | backreference name => .special ("Backreference to match: ".toList ++ name)
  | control glyph => .special ("CTRL-".toList ++ [glyph])
  | unicode digits => .special ("Unicode ".toList ++ digits)
  | hex digits => .special ("Hex ".toList ++ digits)
  | shorthand description => .special description
  | space => .literal spaceMark
  | literal glyph => .literal [glyph]

/-- Reads `k<name>`: the name and the number of glyphs. -/
def backreference? : Text → Option (Text × Nat)
  | 'k' :: '<' :: t => (Opener.wordUpTo? '>' t).map fun r => (r.1, r.1.length + 3)
  | _ => none

/-- Takes so many glyphs, if there are as many. -/
def take? (count : Nat) (t : Text) : Option Text :=
  if (t.take count).length = count then some (t.take count) else none

/-- Reads an escape that is no backreference from its first glyph on. -/
def readGlyph? : Char → Text → Option (Escape × Nat)
  | 'c', [] => none
  | 'c', c :: _ => some (control c, 2)
  | 'u', t => (take? 4 t).map fun digits => (unicode digits, 5)
  | 'x', t => (take? 2 t).map fun digits => (hex digits, 3)
  | ' ', _ => some (space, 1)
  | c, _ => some ((shorthand? c).elim (literal c) shorthand, 1)

/-- Reads the escape that follows a backslash, with the number of glyphs it takes up after that.
There is none if the pattern ends too early. -/
def read? (t : Text) : Option (Escape × Nat) :=
  match backreference? t with
  | some (name, width) => some (backreference name, width)
  | none =>
    match t with
    | [] => none
    | c :: t => readGlyph? c t

end Escape

end RegexGloss
