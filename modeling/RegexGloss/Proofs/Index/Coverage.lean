import RegexGloss.Proofs.Index.Nesting

/-!
# Coverage and innermost entries

The entries of an index leave out exactly the blanks and comments that are skipped outside of all
groups (`SkipsOutside`): every other construct has an entry that covers all of it, and so has the
group around a blank inside of it. Because entries are nested, the narrowest entry at a glyph is
the innermost one. No other entry at that glyph is as narrow, so it does not matter in which order
the entries are looked through.

Main statement: `lookup_of_explain`.
-/

namespace RegexGloss

/-! ## Innermost entries -/

namespace Span

/-- A span inside another one at the same glyph is narrower. -/
theorem StrictlyWithin.width_lt {s t : Span} (h : s.StrictlyWithin t) {offset : Nat}
    (hs : s.contains offset) : s.width < t.width := by
  rw [contains_iff] at hs
  obtain ⟨⟨hstart, hstop⟩, hstrict⟩ := h
  rw [width, width]
  omega

/-- Spans that lie inside each other have the same ends. -/
theorem Within.ends_eq {s t : Span} (hst : s.Within t) (hts : t.Within s) :
    (s.start, s.stop) = (t.start, t.stop) := by
  rw [Nat.le_antisymm hts.1 hst.1, Nat.le_antisymm hst.2 hts.2]

end Span

namespace SpanIndex.WellFormed

variable {i : SpanIndex} {length offset : Nat} {s t : Span}

/-- Of two entries at the same glyph, one lies inside the other. -/
theorem eq_or_strictlyWithin (h : i.WellFormed length) (hs : s ∈ i.entries) (ht : t ∈ i.entries)
    (hso : s.contains offset) (hto : t.contains offset) :
    s = t ∨ s.StrictlyWithin t ∨ t.StrictlyWithin s := by
  let R (s t : Span) : Prop :=
    s.contains offset → t.contains offset → s = t ∨ s.StrictlyWithin t ∨ t.StrictlyWithin s
  have hdisjoint {s t : Span} (hso : s.contains offset) (hto : t.contains offset) :
      ¬s.Disjoint t := by
    rw [Span.contains_iff] at hso hto
    rw [Span.Disjoint]
    omega
  -- the nesting of two entries does not depend on which of them is listed first
  refine List.Pairwise.forall_of_forall_of_flip (R := R) (fun _ _ _ _ => .inl rfl) ?_ ?_
    hs ht hso hto
  · refine h.nested.imp fun hst hso hto => ?_
    exact .inr (.inl (hst.resolve_left (hdisjoint hso hto)).1)
  · refine h.nested.imp fun hst hto hso => ?_
    exact .inr (.inr (hst.resolve_left (hdisjoint hso hto)).1)

/-- Entries with the same ends are the same. -/
theorem eq_of_ends_eq (h : i.WellFormed length) (hs : s ∈ i.entries) (ht : t ∈ i.entries)
    (hst : (s.start, s.stop) = (t.start, t.stop)) : s = t := by
  let R (s t : Span) : Prop := (s.start, s.stop) = (t.start, t.stop) → s = t
  refine List.Pairwise.forall_of_forall_of_flip (R := R) (fun _ _ _ => rfl) ?_ ?_ hs ht hst
  · exact h.distinct.imp fun hne heq => absurd heq hne
  · exact h.distinct.imp fun hne heq => absurd heq.symm hne

/-- The narrowest entry at a glyph lies inside every entry at that glyph, in whatever order these
are looked through. -/
theorem within_of_narrowest?_eq_some (h : i.WellFormed length) {es : List Span}
    (hes : es.Perm i.entries) (hs : Span.narrowest? (es.filter (·.contains offset)) = some s) :
    s ∈ i.entries ∧ s.contains offset ∧ ∀ t ∈ i.entries, t.contains offset → s.Within t := by
  obtain ⟨hmem, hso⟩ := List.mem_filter.1 (Span.mem_of_narrowest?_eq_some hs)
  refine ⟨hes.mem_iff.1 hmem, hso, fun t ht hto => ?_⟩
  have hwidth : s.width ≤ t.width :=
    Span.width_le_of_narrowest?_eq_some hs t (List.mem_filter.2 ⟨hes.mem_iff.2 ht, hto⟩)
  rcases h.eq_or_strictlyWithin (hes.mem_iff.1 hmem) ht hso hto with rfl | hst | hts
  · exact ⟨Nat.le_refl _, Nat.le_refl _⟩
  · exact hst.1
  -- an entry inside the narrowest one would be narrower
  · have := hts.width_lt hto
    omega

/-- It does not matter in which order entries are looked through. -/
theorem narrowest?_eq_lookup_of_perm (h : i.WellFormed length) {es : List Span}
    (hes : es.Perm i.entries) (offset : Nat) :
    Span.narrowest? (es.filter (·.contains offset)) = i.lookup offset := by
  have hfilter := hes.filter (·.contains offset)
  cases hs : Span.narrowest? (es.filter (·.contains offset)) with
  | none =>
    rw [Span.narrowest?_eq_none_iff] at hs
    rw [hs] at hfilter
    rw [lookup, ← hfilter.nil_eq]
    rfl
  | some s =>
    cases ht : i.lookup offset with
    | none =>
      rw [lookup, Span.narrowest?_eq_none_iff] at ht
      rw [ht] at hfilter
      rw [hfilter.eq_nil] at hs
      cases hs
    | some t =>
      -- both are innermost, so each of them lies inside the other
      obtain ⟨hs, hso, hst⟩ := h.within_of_narrowest?_eq_some hes hs
      obtain ⟨ht, hto, hts⟩ := h.within_of_narrowest?_eq_some (.refl _) ht
      rw [h.eq_of_ends_eq hs ht ((hst t ht hto).ends_eq (hts s hs hso))]

end SpanIndex.WellFormed

/-! ## Coverage -/

/-- A glyph belongs to a blank or a comment that is skipped outside of all groups. -/
def SkipsOutside (pattern : Text) (o : Options) (offset : Nat) : Prop :=
  ∃ before l after a, Lexeme.lex o.ignoreWhitespace pattern = before ++ l :: after ∧
    (l.token = .blank ∨ l.token = .comment) ∧
    Assembly.run o { offset := 0 } before = .ok a ∧ a.frames = [] ∧
    a.offset ≤ offset ∧ offset < a.offset + l.width

/-- Nothing is skipped unless this is asked for. -/
theorem not_skipsOutside {o : Options} (h : o.ignoreWhitespace = false) (pattern : Text)
    (offset : Nat) : ¬SkipsOutside pattern o offset := by
  rintro ⟨before, l, after, a, hlex, hl, -⟩
  have hmem : l ∈ Lexeme.lex false pattern := by
    rw [← h, hlex]
    simp
  have := Lexeme.not_skipped_of_mem_lex hmem
  rcases hl with hl | hl
  · exact this.1 hl
  · exact this.2 hl

namespace Construct

/-- Every glyph of constructs belongs to one of them. -/
theorem exists_split_of_lt_widthAll {cs : List Construct} {i : Nat} (h : i < widthAll cs) :
    ∃ before c after, cs = before ++ c :: after ∧
      widthAll before ≤ i ∧ i < widthAll before + c.width := by
  induction cs generalizing i with
  | nil => exact absurd h (Nat.not_lt_zero i)
  | cons c cs ih =>
    rw [widthAll_cons] at h
    by_cases hi : i < c.width
    · exact ⟨[], c, cs, rfl, Nat.zero_le i, by rwa [widthAll_nil, Nat.zero_add]⟩
    · obtain ⟨before, d, after, rfl, hle, hlt⟩ := ih (i := i - c.width) (by omega)
      refine ⟨c :: before, d, after, rfl, ?_, ?_⟩
      · rw [widthAll_cons]
        omega
      · rw [widthAll_cons]
        omega

/-- No entry covers what is skipped between constructs. -/
theorem contains_eq_false_of_skipped (o : Options) (before after : List Construct)
    (comment : Bool) (extra : Nat) {i : Nat} (hle : widthAll before ≤ i)
    (hlt : i < widthAll before + (extra + 1)) :
    ∀ s ∈ spansAll o 0 (before ++ .skipped comment extra :: after), s.contains i = false := by
  intro s hs
  rw [spansAll_append, spansAll_cons, List.mem_append, List.mem_append, Nat.zero_add,
    width_skipped] at hs
  rw [← Bool.not_eq_true, Span.contains_iff]
  rcases hs with hs | hs | hs
  -- what comes before ends too early, and what comes behind starts too late
  · obtain ⟨-, -, hstop⟩ := between_of_mem_spansAll o 0 before s hs
    omega
  · cases hs
  · obtain ⟨hstart, -, -⟩ := between_of_mem_spansAll o _ after s hs
    omega

/-- A blank or a comment is the token of a skipped construct. -/
theorem exists_skipped_of_lexemesAll_eq_cons {cs : List Construct} {l : Lexeme} {ls : List Lexeme}
    (h : lexemesAll cs = l :: ls) (hl : l.token = .blank ∨ l.token = .comment) :
    ∃ comment extra after, cs = .skipped comment extra :: after ∧ l.width = extra + 1 := by
  cases cs with
  | nil => cases h
  | cons c cs =>
    rw [lexemesAll_cons] at h
    cases c with
    | skipped comment extra =>
      cases h
      exact ⟨comment, extra, cs, rfl, rfl⟩
    -- all other constructs start with a token that is not skipped
    | group heading extra body =>
      cases h
      cases heading <;> rcases hl with hl | hl <;> cases hl
    | _ =>
      cases h
      rcases hl with hl | hl <;> cases hl

/-- What is skipped outside of all groups is a construct of the pattern. -/
theorem exists_forms_of_skipsOutside {pattern : Text} {o : Options} {i : Nat}
    (h : SkipsOutside pattern o i) {e : Explanation} (he : explain pattern o = .ok e) :
    ∃ before comment extra after, Forms (before ++ .skipped comment extra :: after) o pattern ∧
      widthAll before ≤ i ∧ i < widthAll before + (extra + 1) := by
  obtain ⟨ls, l, ms, a, hlex, hl, hrun, hframes, hle, hlt⟩ := h
  obtain ⟨cs, hcs, -⟩ := explain_eq_ok_iff.1 he
  have hshaped (k : Lexeme) (hk : k ∈ ls ++ l :: ms) : k.Shaped :=
    Lexeme.shaped_of_mem_lex (hlex ▸ hk)
  obtain ⟨before, hbefore, rfl, rfl⟩ := Assembly.exists_extend_of_run rfl
    (fun k hk => hshaped k (List.mem_append_left _ hk)) hrun hframes
  -- reading goes on behind what comes before, and ends outside of all groups again
  have hall := Assembly.run_lexemesAll o { offset := 0 } cs hcs.proper
  rw [hcs.lexemesAll_eq, hlex, Assembly.run_append_of_run hrun] at hall
  obtain ⟨rest, hrest, hlexemes, -⟩ := Assembly.exists_extend_of_run hframes
    (fun k hk => hshaped k (List.mem_append_right _ hk)) hall rfl
  obtain ⟨comment, extra, after, rfl, hwidth⟩ :=
    exists_skipped_of_lexemesAll_eq_cons hlexemes hl
  rw [hwidth] at hlt
  rw [Assembly.offset_extend, Nat.zero_add] at hle hlt
  refine ⟨before, comment, extra, after, ⟨?_, ?_⟩, hle, hlt⟩
  · refine (properAll_append_iff _ _).2 ⟨hbefore, hrest, .inr ?_⟩
    simp [StartsNoRun, isRun]
  · rw [lexemesAll_append, hlexemes, hlex]

/-- Every glyph of a pattern that no entry covers is skipped outside of all groups. -/
theorem Forms.skipsOutside {cs : List Construct} {o : Options} {pattern : Text}
    (h : Forms cs o pattern) {i : Nat} (hi : i < pattern.length)
    (hnone : ∀ s ∈ spansAll o 0 cs, s.contains i = false) : SkipsOutside pattern o i := by
  rw [← h.widthAll_eq] at hi
  obtain ⟨before, c, after, rfl, hle, hlt⟩ := exists_split_of_lt_widthAll hi
  -- the glyph belongs to a construct outside of all groups, whose entry would cover it
  cases hc : c.isSkipped with
  | false =>
    obtain ⟨s, hs⟩ := exists_span?_eq_some o (widthAll before) hc
    obtain ⟨hstart, hstop⟩ := ends_of_span?_eq_some hs
    have hmem : s ∈ spansAll o 0 (before ++ c :: after) := by
      rw [spansAll_append, spansAll_cons, Nat.zero_add]
      exact List.mem_append_right _ (List.mem_append_left _ (mem_spans_of_span?_eq_some hs))
    have hcontains : s.contains i = true := (s.contains_iff i).2 ⟨by omega, by omega⟩
    rw [hnone s hmem] at hcontains
    cases hcontains
  | true =>
    obtain ⟨comment, extra, rfl⟩ : ∃ comment extra, c = .skipped comment extra := by
      cases c <;> simp_all [isSkipped]
    have hbefore := ((properAll_append_iff _ _).1 h.proper).1
    refine ⟨lexemesAll before, ⟨if comment then .comment else .blank, extra + 1⟩, lexemesAll after,
      _, ?_, ?_, Assembly.run_lexemesAll o _ before hbefore, rfl, ?_, ?_⟩
    · rw [← h.lexemesAll_eq, lexemesAll_append]
      rfl
    · cases comment
      · exact .inl rfl
      · exact .inr rfl
    · rwa [Assembly.offset_extend, Nat.zero_add]
    · rwa [Assembly.offset_extend, Nat.zero_add]

end Construct

open Construct

/-- The entry found at a glyph is the innermost one, whatever the order of the entries, and there
is one at every glyph of the pattern that is not skipped outside of all groups. -/
theorem lookup_of_explain {pattern : Text} {o : Options} {e : Explanation}
    (h : explain pattern o = .ok e) (offset : Nat) :
    (e.lookup offset = none ↔ pattern.length ≤ offset ∨ SkipsOutside pattern o offset) ∧
    (o.ignoreWhitespace = false → (e.lookup offset = none ↔ pattern.length ≤ offset)) ∧
    (∀ s, e.lookup offset = some s → s ∈ e.index.entries ∧ s.contains offset ∧
      ∀ t ∈ e.index.entries, t.contains offset → s.Within t) ∧
    ∀ es : List Span, es.Perm e.index.entries →
      Span.narrowest? (es.filter (·.contains offset)) = e.lookup offset := by
  obtain ⟨cs, hcs, rfl⟩ := explain_eq_ok_iff.1 h
  have hindex := hcs.wellFormed_index
  have hnone : (explanation o cs).lookup offset = none ↔
      pattern.length ≤ offset ∨ SkipsOutside pattern o offset := by
    rw [Explanation.lookup, SpanIndex.lookup_eq_none_iff, entries_explanation o hcs.proper]
    constructor
    · intro hentries
      by_cases hlt : offset < pattern.length
      · exact .inr (hcs.skipsOutside hlt hentries)
      · exact .inl (Nat.le_of_not_lt hlt)
    · rintro (hle | hskips)
      · intro s hs
        obtain ⟨-, -, hstop⟩ := between_of_mem_spansAll o 0 cs s hs
        rw [hcs.widthAll_eq] at hstop
        rw [← Bool.not_eq_true, Span.contains_iff]
        omega
      · obtain ⟨before, comment, extra, after, hds, hle, hlt⟩ :=
          exists_forms_of_skipsOutside hskips h
        -- the pattern has one explanation, whatever constructs it is taken to be made of
        have hsame := explain_eq_ok_iff.2 ⟨_, hds, rfl⟩
        rw [h] at hsame
        rw [← entries_explanation o hcs.proper, Except.ok.inj hsame,
          entries_explanation o hds.proper]
        exact contains_eq_false_of_skipped o before after comment extra hle hlt
  refine ⟨hnone, fun ho => ?_, fun s hs => ?_, fun es hes => ?_⟩
  · rw [hnone]
    exact or_iff_left (not_skipsOutside ho pattern offset)
  · exact hindex.within_of_narrowest?_eq_some (.refl _) hs
  · exact hindex.narrowest?_eq_lookup_of_perm hes offset

theorem lookup_of_explain_blank :
    ∃ e, explain ['a', ' ', '(', 'b', ')'] ⟨true, false⟩ = .ok e ∧
      e.lookup 1 = none ∧ e.lookup 5 = none := by
  obtain ⟨e, he⟩ : ∃ e, explain ['a', ' ', '(', 'b', ')'] ⟨true, false⟩ = .ok e := ⟨_, rfl⟩
  have hskips : SkipsOutside ['a', ' ', '(', 'b', ')'] ⟨true, false⟩ 1 :=
    ⟨[⟨.atom (.literal ['a']), 1⟩], ⟨.blank, 1⟩, _, _, rfl, .inl rfl, rfl, rfl, by decide,
      by decide⟩
  exact ⟨e, he, (lookup_of_explain he 1).1.2 (.inr hskips),
    (lookup_of_explain he 5).1.2 (.inl (by decide))⟩

end RegexGloss
