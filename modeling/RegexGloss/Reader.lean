import RegexGloss.Assembly
import RegexGloss.Explanation

/-!
# Readers

A reader stands at a glyph of a pattern. It keeps the index of what was read so far and the place
of the first fault. `Reader.read` reads the rest of the pattern; after a fault the reader stands
where the fault stopped it, and reading can be taken up again from there.

`explain` reads a whole pattern.
-/

namespace RegexGloss

/-- A pattern that is being read. -/
structure Reader where
  /-- The whole pattern. -/
  pattern : Text
  /-- How the pattern is to be read. -/
  options : Options
  /-- The number of glyphs read. -/
  offset : Nat := 0
  /-- The place of the first fault. -/
  firstFault : Option Location := none
  /-- The index of what was read. -/
  index : SpanIndex := .empty
  deriving DecidableEq, Repr

namespace Reader

/-! ## The place in the pattern -/

/-- The glyphs not yet read. -/
def remaining (r : Reader) : Text := r.pattern.drop r.offset

/-- The next glyph, if there is one. -/
def peek (r : Reader) : Option Char := r.remaining.head?

/-- The next glyph. It is a fault if there is none. -/
def current (r : Reader) : Except Fault Char :=
  match r.peek with
  | some c => .ok c
  | none => .error ⟨.endOfPattern, r.offset⟩

/-- Whether the whole pattern has been read. -/
def atEnd (r : Reader) : Bool := r.pattern.length ≤ r.offset

/-- Goes on by so many glyphs, but not past the end of the pattern. -/
def advanceBy (r : Reader) (count : Nat) : Reader :=
  { r with offset := min (r.offset + count) r.pattern.length }

/-- Goes on by one glyph, but not past the end of the pattern. -/
def advance (r : Reader) : Reader := r.advanceBy 1

/-! ## What is kept of it -/

/-- Keeps the place of a fault, unless there was one before. -/
def keepFault (r : Reader) (l : Location) : Reader :=
  { r with firstFault := r.firstFault <|> some l }

/-- Keeps the place that a fault points at, unless there was one before. -/
def fail (r : Reader) (f : Fault) : Reader := r.keepFault f.location

/-- Registers a span in the index, unless it ends before it starts. -/
def register (r : Reader) (s : Span) (joins : Bool) : Except EmptySpan Reader :=
  (r.index.register s joins).map fun index => { r with index }

/-- Ends the run of literals that the latest entry of the index may be. -/
def closeRun (r : Reader) : Reader := { r with index := r.index.closeRun }

/-- Hands out the index and starts a new one. -/
def takeIndex (r : Reader) : SpanIndex × Reader := (r.index, { r with index := .empty })

/-! ## Reading -/

/-- Reads the rest of the pattern. If that succeeds, the index is handed out with the tree; after a
fault it is kept. -/
def read (r : Reader) : Except Fault Explanation × Reader :=
  match Assembly.assemble r.options r.offset (Lexeme.lex r.options.ignoreWhitespace r.remaining) with
  | .ok a =>
    (.ok ⟨a.tree, r.index.recordAll a.marks⟩, { r with offset := a.offset, index := .empty })
  | .error h =>
    (.error h.fault,
      { r with
        offset := h.reached.offset
        index := r.index.recordAll h.reached.marks }.fail h.fault)

/-- Reads the rest of the pattern so many times, each time from where the last one stopped. The
results come with the reader after each. -/
def readTimes (r : Reader) : Nat → List (Except Fault Explanation × Reader)
  | 0 => []
  | n + 1 => r.read :: r.read.2.readTimes n

@[simp]
theorem remaining_advanceBy (r : Reader) (count : Nat) :
    (r.advanceBy count).remaining = r.remaining.drop count := by
  simp only [remaining, advanceBy, List.drop_drop]
  by_cases h : r.offset + count ≤ r.pattern.length
  · rw [Nat.min_eq_left h]
  · rw [Nat.min_eq_right (by omega), List.drop_length, List.drop_eq_nil_of_le (by omega)]

theorem offset_advanceBy_le (r : Reader) (count : Nat) :
    (r.advanceBy count).offset ≤ (r.advanceBy count).pattern.length :=
  Nat.min_le_right _ _

end Reader

/-- Explains a whole pattern. -/
def explain (pattern : Text) (options : Options) : Except Fault Explanation :=
  (Reader.read { pattern, options }).1

end RegexGloss
