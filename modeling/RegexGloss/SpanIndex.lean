import RegexGloss.Node.Basic

/-!
# Indexes of spans

An index tells which construct of a pattern covers a glyph. Its entries are spans with the
description of the construct that takes them up, in the order in which they were registered.

Literals that are registered one after the other share one entry, a run. A run goes on until a
construct of another kind is registered or the run is closed.
-/

namespace RegexGloss

/-! ## Spans -/

/-- A stretch of a pattern with the construct that takes it up. -/
structure Span where
  /-- The class of the construct. -/
  kind : NodeKind
  /-- The first glyph. -/
  start : Nat
  /-- The last glyph. -/
  stop : Nat
  /-- The description of the construct. -/
  text : Text
  deriving DecidableEq, Repr

namespace Span

/-- Whether a span covers a glyph. -/
def contains (s : Span) (offset : Nat) : Bool := s.start ≤ offset && offset ≤ s.stop

/-- The number of glyphs of a span. -/
def width (s : Span) : Nat := s.stop + 1 - s.start

theorem contains_iff (s : Span) (offset : Nat) :
    s.contains offset = true ↔ s.start ≤ offset ∧ offset ≤ s.stop := by
  simp [contains]

/-- The narrowest span of a list, and among equally narrow ones the first. -/
def narrowest? : List Span → Option Span
  | [] => none
  | s :: ss =>
    match narrowest? ss with
    | none => some s
    | some t => if s.width ≤ t.width then some s else some t

@[simp]
theorem narrowest?_eq_none_iff (ss : List Span) : narrowest? ss = none ↔ ss = [] := by
  cases ss with
  | nil => simp [narrowest?]
  | cons s ss =>
    rw [narrowest?]
    split
    · simp
    · split <;> simp

/-- The narrowest span is one of the list. -/
theorem mem_of_narrowest?_eq_some {ss : List Span} {s : Span} (h : narrowest? ss = some s) :
    s ∈ ss := by
  induction ss with
  | nil => cases h
  | cons r ss ih =>
    rw [narrowest?] at h
    split at h
    · simp_all
    · rename_i hn
      split at h
      · simp_all
      · exact List.mem_cons_of_mem _ (ih (hn.trans h))

/-- No span of the list is narrower than the narrowest one. -/
theorem width_le_of_narrowest?_eq_some {ss : List Span} {s : Span} (h : narrowest? ss = some s) :
    ∀ r ∈ ss, s.width ≤ r.width := by
  induction ss generalizing s with
  | nil => simp
  | cons q ss ih =>
    rw [narrowest?] at h
    split at h
    · rename_i hn
      simp_all
    · rename_i hn
      have hw := ih hn
      split at h <;> cases h <;> intro r hr <;> rcases List.mem_cons.1 hr with rfl | hr
      · exact Nat.le_refl _
      · exact Nat.le_trans ‹_› (hw r hr)
      · omega
      · exact hw r hr

end Span

/-- The report of a span that ends before it starts. -/
structure EmptySpan where
  /-- The start of the span. -/
  start : Nat
  /-- The end of the span, before its start. -/
  stop : Nat
  deriving DecidableEq, Repr

/-- How an empty span is reported. -/
def EmptySpan.message (e : EmptySpan) : Text :=
  "empty span ".toList ++ Text.decimal e.start ++ "..=".toList ++ Text.decimal e.stop

/-! ## Indexes -/

/-- The spans registered so far. -/
structure SpanIndex where
  /-- The entries, the latest first. -/
  latest : List Span := []
  /-- Whether the latest entry is a run that may go on. -/
  runOpen : Bool := false
  deriving DecidableEq, Repr

namespace SpanIndex

/-- The index without entries. -/
def empty : SpanIndex := {}

/-- The entries in the order in which they were registered. -/
def entries (i : SpanIndex) : List Span := i.latest.reverse

/-- Adds a span. One that may join a run extends the latest entry if that is an open run. -/
def push (i : SpanIndex) (s : Span) (joins : Bool) : SpanIndex :=
  match joins && i.runOpen, i.latest with
  | true, last :: earlier =>
    { i with latest := { last with stop := s.stop, text := last.text ++ s.text } :: earlier }
  | _, latest => { latest := s :: latest, runOpen := joins }

/-- Adds a span as `push` does, unless it ends before it starts. -/
def register (i : SpanIndex) (s : Span) (joins : Bool) : Except EmptySpan SpanIndex :=
  if s.start ≤ s.stop then .ok (i.push s joins) else .error ⟨s.start, s.stop⟩

/-- Ends the run that the latest entry may be. -/
def closeRun (i : SpanIndex) : SpanIndex := { i with runOpen := false }

/-- The narrowest entry that covers a glyph, and among equally narrow ones the first. -/
def lookup (i : SpanIndex) (offset : Nat) : Option Span :=
  Span.narrowest? (i.entries.filter (·.contains offset))

/-- No entry is found exactly if none covers the glyph. -/
theorem lookup_eq_none_iff (i : SpanIndex) (offset : Nat) :
    i.lookup offset = none ↔ ∀ s ∈ i.entries, s.contains offset = false := by
  simp [lookup]

end SpanIndex

end RegexGloss
