import RegexGloss.Text.Basic

/-!
# Character classes

A character class lists glyphs between brackets, `[abc]` or `[^abc]`. The first `]` ends it, and
nothing inside it is special. A class without a `]` runs to the end of the pattern; it is described
as such and is no fault.
-/

namespace RegexGloss

/-- A character class. -/
inductive CharClass where
  /-- The glyphs between the brackets as written, and whether the class is their complement. -/
  | set (members : Text) (negated : Bool)
  /-- A class that no `]` ends. -/
  | unterminated
  deriving DecidableEq, Repr

namespace CharClass

/-- How an explanation describes a character class. -/
def describe : CharClass → Text
  | set members false => "Any character in \"".toList ++ members ++ ['"']
  | set members true => "Any character not in \"".toList ++ members ++ ['"']
  | unterminated => "missing ']' in character class".toList

/-- Reads the members of a class and the bracket that ends it, with the number of glyphs they
take up. -/
def readMembers (negated : Bool) (t : Text) : CharClass × Nat :=
  let members := t.takeWhile (· != ']')
  if members.length < t.length then
    (set members negated, members.length + 1)
  else
    (unterminated, t.length)

/-- Reads the class that follows a `[`, with the number of glyphs it takes up after that. -/
def read : Text → CharClass × Nat
  | '^' :: t => ((readMembers true t).1, (readMembers true t).2 + 1)
  | t => readMembers false t

theorem readMembers_snd_le (negated : Bool) (t : Text) : (readMembers negated t).2 ≤ t.length := by
  dsimp only [readMembers]
  split
  · assumption
  · exact Nat.le_refl _

/-- A class takes up no more glyphs than there are. -/
theorem read_snd_le (t : Text) : (read t).2 ≤ t.length := by
  unfold read
  split
  · simpa using readMembers_snd_le true _
  · exact readMembers_snd_le false t

end CharClass

end RegexGloss
