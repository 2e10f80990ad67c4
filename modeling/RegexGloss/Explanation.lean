import RegexGloss.Mark

/-!
# Explanations

An explanation of a pattern is its tree together with an index that finds the construct at a glyph.
-/

namespace RegexGloss

/-- What a pattern says. -/
structure Explanation where
  /-- The nodes of the pattern. -/
  tree : List Node
  /-- Which construct covers which glyphs. -/
  index : SpanIndex
  deriving DecidableEq, Repr

namespace Explanation

/-- The explanation in words, as whole lines. -/
def text (e : Explanation) : Text := Node.renderAll 0 e.tree

/-- The innermost construct that covers a glyph. -/
def lookup (e : Explanation) (offset : Nat) : Option Span := e.index.lookup offset

end Explanation

end RegexGloss
