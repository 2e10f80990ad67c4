import RegexGloss.Node.Render
import RegexGloss.SpanIndex

/-!
# Marks

Reading a pattern leaves marks: which stretch of the pattern each node takes up, and where a run of
literals is interrupted. An index is what the marks of a pattern add up to.
-/

namespace RegexGloss

/-- What reading a pattern tells an index. -/
inductive Mark where
  /-- A node that takes up the glyphs from `start` to `stop`. -/
  | node (node : Node) (start stop : Nat)
  /-- A place that no run of literals goes across. -/
  | gap
  deriving DecidableEq, Repr

/-- The entry of a node that takes up the glyphs from `start` to `stop`. -/
def Span.ofNode (n : Node) (start stop : Nat) : Span := ⟨n.kind, start, stop, n.describe⟩

namespace SpanIndex

/-- Adds what a mark tells. Literals join runs. -/
def record (i : SpanIndex) : Mark → SpanIndex
  | .node n start stop => i.push (.ofNode n start stop) n.isLiteral
  | .gap => i.closeRun

/-- Adds what marks tell, the first of them being the latest. -/
def recordAll (i : SpanIndex) (marks : List Mark) : SpanIndex :=
  marks.foldr (fun mark i => i.record mark) i

@[simp]
theorem recordAll_nil (i : SpanIndex) : i.recordAll [] = i := rfl

@[simp]
theorem recordAll_cons (i : SpanIndex) (mark : Mark) (marks : List Mark) :
    i.recordAll (mark :: marks) = (i.recordAll marks).record mark := rfl

/-- Earlier marks are recorded before later ones. -/
theorem recordAll_append (i : SpanIndex) (later earlier : List Mark) :
    i.recordAll (later ++ earlier) = (i.recordAll earlier).recordAll later := by
  simp [recordAll]

end SpanIndex

end RegexGloss
