import RegexGloss.Text.Basic
import RegexGloss.Text.WordRanges

/-!
# Word glyphs

Names of groups and of backreferences are made of word glyphs: letters, digits and other numeric
glyphs of any script, and the low line.
-/

namespace RegexGloss

namespace Text

/-- Whether a glyph may stand in a name. -/
def isWord (c : Char) : Bool :=
  if c.toNat < 128 then
    c.isAlphanum || c == '_'
  else
    wordRanges.any fun range => range.1 ≤ c.toNat && c.toNat ≤ range.2

/-- The word that a text starts with, possibly empty. -/
def word (t : Text) : Text := t.takeWhile isWord

/-- What follows the word that a text starts with. -/
def afterWord (t : Text) : Text := t.dropWhile isWord

/-- The word and what follows it make up the text. -/
theorem word_append_afterWord (t : Text) : word t ++ afterWord t = t :=
  List.takeWhile_append_dropWhile

/-- Within ASCII the word glyphs are the letters, the digits and the low line. -/
theorem isWord_of_lt {c : Char} (h : c.toNat < 128) :
    isWord c = (c.isAlphanum || c == '_') := by
  simp [isWord, h]

end Text

end RegexGloss
