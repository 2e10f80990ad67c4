import RegexGloss.Proofs.Construct.Bounds
import RegexGloss.Proofs.Construct.Explanation

/-!
# Nesting of entries

The entries of an index lie inside the pattern, and the last glyphs of later entries do not come
before those of earlier ones. Of two entries, either none covers a glyph of the other, or the later
one is a group or a conditional that covers the earlier one and more. So an index is a tree of
spans, listed bottom up.

Main statement: `wellFormed_index_of_explain`. It rests on `Construct.pairwise_spansAll`, which says
how the entries of constructs lie to later ones.
-/

namespace RegexGloss

namespace Span

/-- No glyph is covered by both spans. -/
def Disjoint (s t : Span) : Prop := s.stop < t.start ∨ t.stop < s.start

/-- The second span covers all glyphs of the first. -/
def Within (s t : Span) : Prop := t.start ≤ s.start ∧ s.stop ≤ t.stop

/-- Whether a span lies inside another one is decidable. -/
instance (s t : Span) : Decidable (s.Within t) := inferInstanceAs (Decidable (_ ∧ _))

/-- The second span covers all glyphs of the first, and more. -/
def StrictlyWithin (s t : Span) : Prop :=
  s.Within t ∧ (t.start < s.start ∨ s.stop < t.stop)

/-- A span of a construct that holds other constructs. -/
def Encloses (s : Span) : Prop := s.kind = .group ∨ s.kind = .conditional

/-- How an entry lies to a later one: before it, or inside it but not at its start. -/
def Precedes (s t : Span) : Prop :=
  s.stop ≤ t.stop ∧ (s.stop < t.start ∨ t.start < s.start ∧ t.Encloses)

/-- What ends before a place precedes what starts there or later. -/
theorem Between.precedes {first middle bound : Nat} {s t : Span} (hs : s.Between first middle)
    (ht : t.Between middle bound) : s.Precedes t := by
  obtain ⟨-, -, hstop⟩ := hs
  obtain ⟨hstart, hle, -⟩ := ht
  exact ⟨by omega, .inl (by omega)⟩

/-- What lies inside a span, but not at its start, precedes it. -/
theorem Between.precedes_of_encloses {first bound : Nat} {s t : Span} (hs : s.Between first bound)
    (hstart : t.start < first) (hstop : bound ≤ t.stop + 1) (ht : t.Encloses) : s.Precedes t := by
  obtain ⟨hfirst, -, hbound⟩ := hs
  exact ⟨by omega, .inr ⟨by omega, ht⟩⟩

end Span

namespace Construct

/-! ## How entries lie to each other -/

mutual

/-- Each entry of a construct precedes the later ones. -/
theorem pairwise_spans (o : Options) (offset : Nat) :
    (c : Construct) → (c.spans o offset).Pairwise Span.Precedes
  | .skipped _ _ => List.Pairwise.nil
  | .run _ _ | .atom _ _ | .bar | .bare _ _ => List.pairwise_singleton _ _
  | .group heading extra body => by
    refine List.pairwise_append.2 ⟨pairwise_spansAll o _ body, List.pairwise_singleton _ _, ?_⟩
    intro s hs t ht
    obtain rfl := List.mem_singleton.1 ht
    refine (between_of_mem_spansAll o _ body s hs).precedes_of_encloses ?_ ?_ (.inl rfl)
    · simp only [Span.ofNode]
      omega
    · simp only [Span.ofNode]
      omega
  | .conditional condition branches => by
    have hcondition := between_of_mem_spansAll o (offset + 3) condition
    have hbranches := between_of_mem_spansAll o (offset + 4 + widthAll condition) branches
    refine List.pairwise_append.2 ⟨List.pairwise_append.2
      ⟨pairwise_spansAll o _ condition, pairwise_spansAll o _ branches, ?_⟩, ?_, ?_⟩
    · intro s hs t ht
      exact ((hcondition s hs).mono (Nat.le_refl _) (by omega)).precedes (hbranches t ht)
    -- the choice starts behind the group and ends before it
    · simp only [List.pairwise_cons, List.mem_singleton, forall_eq, List.not_mem_nil,
        false_implies, implies_true, List.Pairwise.nil, and_true, Span.Precedes, Span.ofNode,
        Span.Encloses]
      exact ⟨by omega, .inr ⟨by omega, .inl rfl⟩⟩
    · intro s hs t ht
      -- all that is inside lies between the inner parenthesis and the last one
      have hinside : s.Between (offset + 3)
          (offset + 4 + widthAll condition + widthAll branches) := by
        rcases List.mem_append.1 hs with hs | hs
        · exact (hcondition s hs).mono (Nat.le_refl _) (by omega)
        · exact (hbranches s hs).mono (by omega) (Nat.le_refl _)
      simp only [List.mem_cons, List.not_mem_nil, or_false] at ht
      rcases ht with rfl | rfl
      · refine hinside.precedes_of_encloses ?_ ?_ (.inr (Node.kind_choose _ _))
        · simp only [Span.ofNode]
          omega
        · simp only [Span.ofNode]
          omega
      · refine hinside.precedes_of_encloses ?_ ?_ (.inl rfl)
        · simp only [Span.ofNode]
          omega
        · simp only [Span.ofNode]
          omega

/-- Each entry of constructs precedes the later ones. -/
theorem pairwise_spansAll (o : Options) (offset : Nat) :
    (cs : List Construct) → (spansAll o offset cs).Pairwise Span.Precedes
  | [] => List.Pairwise.nil
  | c :: cs => by
    refine List.pairwise_append.2 ⟨pairwise_spans o offset c, pairwise_spansAll o _ cs, ?_⟩
    intro s hs t ht
    exact (between_of_mem_spans o offset c s hs).precedes (between_of_mem_spansAll o _ cs t ht)

end

end Construct

/-! ## Well-formed indexes -/

/-- An index is well-formed for a pattern of so many glyphs. -/
structure SpanIndex.WellFormed (i : SpanIndex) (length : Nat) : Prop where
  /-- Every entry covers at least one glyph, and only glyphs of the pattern. -/
  bounds : ∀ s ∈ i.entries, s.start ≤ s.stop ∧ s.stop < length
  /-- No entry ends before an earlier one. -/
  stops : i.entries.Pairwise fun s t => s.stop ≤ t.stop
  /-- Two entries are disjoint, or the later one is a group or a conditional around the earlier
  one. -/
  nested : i.entries.Pairwise fun s t => s.Disjoint t ∨ s.StrictlyWithin t ∧ t.Encloses
  /-- No two entries cover the same glyphs. -/
  distinct : i.entries.Pairwise fun s t => (s.start, s.stop) ≠ (t.start, t.stop)

/-- The index of constructs is well-formed for the pattern that they make up. -/
theorem Construct.Forms.wellFormed_index {cs : List Construct} {o : Options} {pattern : Text}
    (h : Forms cs o pattern) : (explanation o cs).index.WellFormed pattern.length := by
  have hentries := entries_explanation o h.proper
  have hbetween := between_of_mem_spansAll o 0 cs
  have hpairwise := pairwise_spansAll o 0 cs
  rw [h.widthAll_eq, Nat.zero_add] at hbetween
  rw [← hentries] at hbetween hpairwise
  refine ⟨fun s hs => (hbetween s hs).2, hpairwise.imp And.left, ?_, ?_⟩
  · refine hpairwise.imp fun {s t} hst => ?_
    obtain ⟨hstop, hlt | ⟨hstart, hencloses⟩⟩ := hst
    · exact .inl (.inl hlt)
    · exact .inr ⟨⟨⟨Nat.le_of_lt hstart, hstop⟩, .inl hstart⟩, hencloses⟩
  · refine hpairwise.imp_of_mem fun {s t} hs ht hst hsame => ?_
    rw [Prod.mk.injEq] at hsame
    obtain ⟨-, hlt | ⟨hstart, -⟩⟩ := hst
    -- an entry that ended where the other starts would have to be empty
    · have := (hbetween s hs).2.1
      omega
    · omega

/-- The index of every pattern that can be explained is well-formed. -/
theorem wellFormed_index_of_explain {pattern : Text} {o : Options} {e : Explanation}
    (h : explain pattern o = .ok e) : e.index.WellFormed pattern.length := by
  obtain ⟨cs, hcs, rfl⟩ := explain_eq_ok_iff.1 h
  exact hcs.wellFormed_index

theorem wellFormed_index_conditional :
    ∃ e, explain ['(', '?', '(', 'a', ')', 'b', '|', '(', 'c', ')', ')', 'd'] {} = .ok e ∧
      e.index.WellFormed 12 := by
  obtain ⟨e, he⟩ : ∃ e, explain ['(', '?', '(', 'a', ')', 'b', '|', '(', 'c', ')', ')', 'd'] {} =
      .ok e := ⟨_, rfl⟩
  exact ⟨e, he, wellFormed_index_of_explain he⟩

end RegexGloss
