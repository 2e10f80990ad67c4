import RegexGloss.Proofs.Construct.Spans

/-!
# Bounds of constructs

The entries and the marks of a construct lie between its first glyph and its last one
(`Construct.between_of_mem_spans`, `Construct.between_of_mem_marks`). If it is not skipped, its last
entry, `Construct.span?`, covers all of it (`Construct.ends_of_span?_eq_some`).
-/

namespace RegexGloss

/-! ## Between two places -/

namespace Span

/-- A span covers at least one glyph, and only glyphs from `first` on and before `bound`. -/
def Between (first bound : Nat) (s : Span) : Prop :=
  first ≤ s.start ∧ s.start ≤ s.stop ∧ s.stop < bound

theorem Between.mono {first first' bound bound' : Nat} {s : Span} (h : s.Between first bound)
    (hfirst : first' ≤ first) (hbound : bound ≤ bound') : s.Between first' bound' :=
  ⟨Nat.le_trans hfirst h.1, h.2.1, Nat.lt_of_lt_of_le h.2.2 hbound⟩

end Span

/-- A mark of a node is between two places if its glyphs are. A gap is so anywhere. -/
def Mark.Between (first bound : Nat) : Mark → Prop
  | .node _ start stop => first ≤ start ∧ start ≤ stop ∧ stop < bound
  | .gap => True

theorem Mark.Between.mono {first first' bound bound' : Nat} {m : Mark} (h : m.Between first bound)
    (hfirst : first' ≤ first) (hbound : bound ≤ bound') : m.Between first' bound' := by
  cases m with
  | node n start stop =>
    exact ⟨Nat.le_trans hfirst h.1, h.2.1, Nat.lt_of_lt_of_le h.2.2 hbound⟩
  | gap => trivial

/-- The marks of literals lie on them. -/
theorem Literal.between_of_mem_marksAll {offset : Nat} {ls : List Literal} {m : Mark}
    (h : m ∈ marksAll offset ls) : m.Between offset (offset + widthAll ls) := by
  induction ls generalizing offset with
  | nil => cases h
  | cons l ls ih =>
    rw [marksAll, List.mem_append, List.mem_singleton] at h
    rcases h with h | rfl
    · refine (ih h).mono (Nat.le_add_right _ _) ?_
      rw [widthAll_cons, Literal.width]
      omega
    · simp only [Mark.Between, widthAll_cons]
      omega

namespace Construct

/-! ## Entries -/

mutual

/-- The entries of a construct lie inside it. -/
theorem between_of_mem_spans (o : Options) (offset : Nat) :
    (c : Construct) → ∀ s ∈ c.spans o offset, s.Between offset (offset + c.width)
  | .skipped _ _, _, hs => by cases hs
  | .run first more, s, hs => by
    obtain rfl := List.mem_singleton.1 hs
    simp only [Span.Between, width_run, Literal.width]
    omega
  | .atom a extra, s, hs => by
    obtain rfl := List.mem_singleton.1 hs
    simp only [Span.Between, Span.ofNode, width_atom]
    omega
  | .bar, s, hs => by
    obtain rfl := List.mem_singleton.1 hs
    simp only [Span.Between, Span.ofNode, width_bar]
    omega
  | .bare kind extra, s, hs => by
    obtain rfl := List.mem_singleton.1 hs
    simp only [Span.Between, Span.ofNode, width_bare]
    omega
  | .group heading extra body, s, hs => by
    rw [spans, List.mem_append, List.mem_singleton] at hs
    rw [width_group]
    -- an entry of the body, or that of the group
    rcases hs with hs | rfl
    · exact (between_of_mem_spansAll o _ body s hs).mono (by omega) (by omega)
    · simp only [Span.Between, Span.ofNode]
      omega
  | .conditional condition branches, s, hs => by
    simp only [spans, List.mem_append, List.mem_cons, List.not_mem_nil, or_false] at hs
    rw [width_conditional]
    -- an entry of the condition or of the branches, that of the choice, or that of the group
    rcases hs with (hs | hs) | rfl | rfl
    · exact (between_of_mem_spansAll o _ condition s hs).mono (by omega) (by omega)
    · exact (between_of_mem_spansAll o _ branches s hs).mono (by omega) (by omega)
    · simp only [Span.Between, Span.ofNode]
      omega
    · simp only [Span.Between, Span.ofNode]
      omega

/-- The entries of constructs lie inside these. -/
theorem between_of_mem_spansAll (o : Options) (offset : Nat) :
    (cs : List Construct) → ∀ s ∈ spansAll o offset cs, s.Between offset (offset + widthAll cs)
  | [], _, hs => by cases hs
  | c :: cs, s, hs => by
    rw [spansAll_cons, List.mem_append] at hs
    rw [widthAll_cons]
    rcases hs with hs | hs
    · exact (between_of_mem_spans o offset c s hs).mono (Nat.le_refl _) (by omega)
    · exact (between_of_mem_spansAll o _ cs s hs).mono (by omega) (by omega)

end

/-- Whether a construct is a blank or a comment. -/
def isSkipped : Construct → Bool
  | skipped _ _ => true
  | _ => false

/-- The entry of a construct as a whole. What is skipped has none. -/
def span? (o : Options) (offset : Nat) : Construct → Option Span
  | skipped _ _ => none
  | run first more =>
    some ⟨.literal, offset, offset + first.extra + Literal.widthAll more,
      Literal.textAll (first :: more)⟩
  | atom a extra => some (.ofNode (.atom a) offset (offset + extra))
  | bar => some (.ofNode (.bar offset) offset offset)
  | bare kind extra => some (.ofNode (.bare kind) offset (offset + extra))
  | group heading extra body =>
    some (.ofNode (groupNode o offset heading extra body) offset
      (offset + (extra + 1) + widthAll body))
  | conditional condition branches =>
    some (.ofNode (.group .conditional [choiceNode o offset condition branches]) offset
      (offset + 4 + widthAll condition + widthAll branches))

/-- The entry of a construct as a whole is its last one. -/
theorem getLast?_spans (o : Options) (offset : Nat) (c : Construct) :
    (c.spans o offset).getLast? = c.span? o offset := by
  cases c with
  | skipped | run | atom | bar | bare => rfl
  | group heading extra body => exact List.getLast?_concat
  | conditional condition branches =>
    rw [spans, List.getLast?_append]
    rfl

theorem mem_spans_of_span?_eq_some {o : Options} {offset : Nat} {c : Construct} {s : Span}
    (h : c.span? o offset = some s) : s ∈ c.spans o offset :=
  List.mem_of_getLast? ((getLast?_spans o offset c).trans h)

/-- Only what is skipped has no entry as a whole. -/
theorem exists_span?_eq_some (o : Options) (offset : Nat) {c : Construct}
    (h : c.isSkipped = false) : ∃ s, c.span? o offset = some s := by
  cases c with
  | skipped => cases h
  | _ => exact ⟨_, rfl⟩

/-- The entry of a construct as a whole covers just the construct. -/
theorem ends_of_span?_eq_some {o : Options} {offset : Nat} {c : Construct} {s : Span}
    (h : c.span? o offset = some s) : s.start = offset ∧ s.stop + 1 = offset + c.width := by
  cases c with
  | skipped comment extra => cases h
  | run first more =>
    cases h
    refine ⟨rfl, ?_⟩
    simp only [width_run, Literal.width]
    omega
  | atom a extra =>
    cases h
    exact ⟨rfl, rfl⟩
  | bar =>
    cases h
    exact ⟨rfl, rfl⟩
  | bare kind extra =>
    cases h
    exact ⟨rfl, rfl⟩
  | group heading extra body =>
    cases h
    refine ⟨rfl, ?_⟩
    simp only [width_group, Span.ofNode]
    omega
  | conditional condition branches =>
    cases h
    refine ⟨rfl, ?_⟩
    simp only [width_conditional, Span.ofNode]
    omega

/-! ## Marks -/

mutual

/-- The marks of a construct lie inside it. -/
theorem between_of_mem_marks (o : Options) (offset : Nat) :
    (c : Construct) → ∀ m ∈ c.marks o offset, m.Between offset (offset + c.width)
  | .skipped _ _, m, hm => by
    obtain rfl := List.mem_singleton.1 hm
    trivial
  | .run first more, m, hm => by
    rw [width_run]
    exact Literal.between_of_mem_marksAll hm
  | .atom a extra, m, hm => by
    obtain rfl := List.mem_singleton.1 hm
    simp only [Mark.Between, width_atom]
    omega
  | .bar, m, hm => by
    obtain rfl := List.mem_singleton.1 hm
    simp only [Mark.Between, width_bar]
    omega
  | .bare kind extra, m, hm => by
    simp only [marks, List.mem_cons, List.not_mem_nil, or_false] at hm
    rcases hm with rfl | rfl
    · simp only [Mark.Between, width_bare]
      omega
    · trivial
  | .group heading extra body, m, hm => by
    rw [marks, List.mem_cons, List.mem_append, List.mem_singleton] at hm
    rw [width_group]
    rcases hm with rfl | hm | rfl
    · simp only [Mark.Between]
      omega
    · exact (between_of_mem_marksAll o _ body m hm).mono (by omega) (by omega)
    · trivial
  | .conditional condition branches, m, hm => by
    simp only [marks, List.mem_cons, List.mem_append, List.not_mem_nil, or_false] at hm
    rw [width_conditional]
    -- the marks of both nodes, and those of the branches and of the condition behind their gaps
    rcases hm with rfl | rfl | hm | rfl | hm | rfl
    · simp only [Mark.Between]
      omega
    · simp only [Mark.Between]
      omega
    · exact (between_of_mem_marksAll o _ branches m hm).mono (by omega) (by omega)
    · trivial
    · exact (between_of_mem_marksAll o _ condition m hm).mono (by omega) (by omega)
    · trivial

/-- The marks of constructs lie inside these. -/
theorem between_of_mem_marksAll (o : Options) (offset : Nat) :
    (cs : List Construct) → ∀ m ∈ marksAll o offset cs, m.Between offset (offset + widthAll cs)
  | [], _, hm => by cases hm
  | c :: cs, m, hm => by
    rw [marksAll_cons, List.mem_append] at hm
    rw [widthAll_cons]
    rcases hm with hm | hm
    · exact (between_of_mem_marksAll o _ cs m hm).mono (by omega) (by omega)
    · exact (between_of_mem_marks o offset c m hm).mono (Nat.le_refl _) (by omega)

end

end Construct

end RegexGloss
