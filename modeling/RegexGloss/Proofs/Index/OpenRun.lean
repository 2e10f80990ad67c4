import RegexGloss.Proofs.Index.Runs

/-!
# Open runs

Besides its entries, an index keeps whether its latest entry is a run of literals that may go on.
This is part of the equality of indexes, although no entry shows it.

For a pattern that can be explained it can be told from the entries: a run is open exactly if the
last entry is a run that ends with the pattern. Behind such a run nothing can have been skipped, and
no parenthesis can stand. So indexes of patterns of the same length are equal if they have the same
entries. If nothing is skipped, the entries tell the length of the pattern too, and the patterns may
have any lengths.

Main statement: `index_eq_iff_of_explain`.
-/

namespace RegexGloss

/-- Indexes are equal exactly if they have the same entries and agree on whether a run is open. -/
theorem SpanIndex.eq_iff (i j : SpanIndex) :
    i = j ↔ i.entries = j.entries ∧ i.runOpen = j.runOpen := by
  constructor
  · rintro rfl
    exact ⟨rfl, rfl⟩
  · rintro ⟨hentries, hopen⟩
    have hlatest : i.latest = j.latest := List.reverse_injective hentries
    cases i
    cases j
    rw [SpanIndex.mk.injEq]
    exact ⟨hlatest, hopen⟩

namespace Construct

/-- Whether a run goes on behind constructs depends on the last of them only. -/
theorem leavesOpen_concat (before : Bool) (cs : List Construct) (c : Construct) :
    leavesOpen before (cs ++ [c]) = c.isRun := by
  induction cs generalizing before with
  | nil => rfl
  | cons d cs ih =>
    rw [List.cons_append, leavesOpen]
    exact ih d.isRun

/-- The last entry of constructs is that of the last one, unless this is skipped. -/
theorem getLast?_spansAll_concat (o : Options) (cs : List Construct) {c : Construct}
    (hc : c.isSkipped = false) :
    (spansAll o 0 (cs ++ [c])).getLast? = c.span? o (widthAll cs) := by
  obtain ⟨s, hs⟩ := exists_span?_eq_some o (widthAll cs) hc
  have hlast : (c.spans o (widthAll cs)).getLast? = some s := (getLast?_spans ..).trans hs
  rw [spansAll_append, spansAll_cons, spansAll_nil, List.append_nil, Nat.zero_add,
    List.getLast?_append, hlast, hs, Option.some_or]

/-- A run is open behind proper constructs exactly if their last entry is a run that ends with
them. -/
theorem leavesOpen_iff (o : Options) {cs : List Construct} (hcs : ProperAll cs) :
    leavesOpen false cs = true ↔ ∃ s, (spansAll o 0 cs).getLast? = some s ∧
      s.kind = .literal ∧ s.stop + 1 = widthAll cs := by
  rcases List.eq_nil_or_concat' cs with rfl | ⟨init, c, rfl⟩
  · simp [leavesOpen]
  rw [leavesOpen_concat, widthAll_append, widthAll_cons, widthAll_nil, Nat.add_zero]
  constructor
  · intro hrun
    have hskipped : c.isSkipped = false := by
      cases c with
      | skipped => cases hrun
      | _ => rfl
    obtain ⟨s, hs⟩ := exists_span?_eq_some o (widthAll init) hskipped
    refine ⟨s, (getLast?_spansAll_concat o init hskipped).trans hs, ?_,
      (ends_of_span?_eq_some hs).2⟩
    cases c with
    | run first more =>
      cases hs
      rfl
    | _ => cases hrun
  · rintro ⟨s, hs, hkind, hstop⟩
    have hliteral : s.isLiteral := beq_iff_eq.2 hkind
    have hmem := List.mem_of_getLast? hs
    rw [spansAll_append, spansAll_cons, spansAll_nil, List.append_nil, Nat.zero_add,
      List.mem_append] at hmem
    rcases hmem with hmem | hmem
    -- an entry of what comes before ends too early
    · have hbefore := (between_of_mem_spansAll o 0 init s hmem).2.2
      have hpos := c.width_pos
      omega
    · by_contra hrun
      have hproper := ((properAll_append_iff _ _).1 hcs).2.1.1
      -- a run inside of a construct has a parenthesis behind it
      have hinside := (between_of_isLiteral hproper (by simpa using hrun) hmem hliteral).2.2
      have hpos := c.width_pos
      omega

/-- If nothing is skipped, the last entry ends with the pattern, and only the empty pattern has no
entry. -/
theorem Forms.length_eq_elim {cs : List Construct} {o : Options} {pattern : Text}
    (h : Forms cs o pattern) (ho : o.ignoreWhitespace = false) :
    pattern.length = (spansAll o 0 cs).getLast?.elim 0 (·.stop + 1) := by
  rw [← h.widthAll_eq]
  rcases List.eq_nil_or_concat' cs with rfl | ⟨init, c, rfl⟩
  · rfl
  have hskipped : c.isSkipped = false := by
    cases c with
    | skipped comment extra =>
      have hmem : ⟨if comment then .comment else .blank, extra + 1⟩ ∈
          Lexeme.lex false pattern := by
        rw [← ho, ← h.lexemesAll_eq, lexemesAll_append]
        exact List.mem_append_right _ List.mem_cons_self
      obtain ⟨hblank, hcomment⟩ := Lexeme.not_skipped_of_mem_lex hmem
      cases comment with
      | false => exact absurd rfl hblank
      | true => exact absurd rfl hcomment
    | _ => rfl
  obtain ⟨s, hs⟩ := exists_span?_eq_some o (widthAll init) hskipped
  rw [getLast?_spansAll_concat o init hskipped, hs, Option.elim_some,
    (ends_of_span?_eq_some hs).2, widthAll_append, widthAll_cons, widthAll_nil, Nat.add_zero]

/-- The index of a pattern keeps a run open exactly if its last entry is a run that ends with the
pattern. -/
theorem Forms.runOpen_iff {cs : List Construct} {o : Options} {pattern : Text}
    (h : Forms cs o pattern) :
    (explanation o cs).index.runOpen = true ↔
      ∃ s, (explanation o cs).index.entries.getLast? = some s ∧ s.kind = .literal ∧
        s.stop + 1 = pattern.length := by
  rw [runOpen_explanation o h.proper, entries_explanation o h.proper, leavesOpen_iff o h.proper,
    h.widthAll_eq]

end Construct

open Construct

/-- The index of a pattern keeps a run open exactly if its last entry is a run that ends with the
pattern. So the indexes of two patterns are equal if they have the same entries, provided that the
patterns are of the same length or that nothing is skipped in them. -/
theorem index_eq_iff_of_explain {p q : Text} {o o' : Options} {e f : Explanation}
    (he : explain p o = .ok e) (hf : explain q o' = .ok f) :
    (e.index.runOpen = true ↔ ∃ s, e.index.entries.getLast? = some s ∧ s.kind = .literal ∧
      s.stop + 1 = p.length) ∧
    (p.length = q.length ∨ o.ignoreWhitespace = false ∧ o'.ignoreWhitespace = false →
      (e.index = f.index ↔ e.index.entries = f.index.entries)) := by
  obtain ⟨cs, hcs, rfl⟩ := explain_eq_ok_iff.1 he
  obtain ⟨ds, hds, rfl⟩ := explain_eq_ok_iff.1 hf
  refine ⟨hcs.runOpen_iff, fun hpq => ?_⟩
  rw [SpanIndex.eq_iff]
  refine and_iff_left_of_imp fun hentries => ?_
  -- the entries decide whether a run is open, given the length of the pattern
  have hlength : p.length = q.length := by
    rcases hpq with hlength | ⟨ho, ho'⟩
    · exact hlength
    · rw [hcs.length_eq_elim ho, hds.length_eq_elim ho', ← entries_explanation o hcs.proper,
        hentries, entries_explanation o' hds.proper]
  rw [Bool.eq_iff_iff, hcs.runOpen_iff, hds.runOpen_iff, hentries, hlength]

/-- Two patterns with a blank at the end have the same index, in which no run is open. -/
theorem index_eq_iff_of_explain_blank :
    ∃ e f, explain ['(', 'a', ')', 'b', ' '] ⟨true, false⟩ = .ok e ∧
      explain ['(', 'a', ')', 'b', '\t'] ⟨true, false⟩ = .ok f ∧ e.index.runOpen = false ∧
      e.index = f.index := by
  obtain ⟨e, he⟩ : ∃ e, explain ['(', 'a', ')', 'b', ' '] ⟨true, false⟩ = .ok e := ⟨_, rfl⟩
  obtain ⟨f, hf⟩ : ∃ f, explain ['(', 'a', ')', 'b', '\t'] ⟨true, false⟩ = .ok f := ⟨_, rfl⟩
  obtain ⟨hopen, hindex⟩ := index_eq_iff_of_explain he hf
  refine ⟨e, f, he, hf, ?_, (hindex (.inl rfl)).2 ?_⟩
  · rw [Bool.eq_false_iff, Ne, hopen]
    rintro ⟨s, hs, -, hstop⟩
    cases he
    cases hs
    cases hstop
  · cases he
    cases hf
    rfl

/-- The same entries, with a run that is open and one that is closed by a blank. -/
example :
    (explain ['b'] ⟨true, false⟩).map (·.index.entries) =
        (explain ['b', ' '] ⟨true, false⟩).map (·.index.entries) ∧
      (explain ['b'] ⟨true, false⟩).map (·.index) ≠
        (explain ['b', ' '] ⟨true, false⟩).map (·.index) := by
  decide

end RegexGloss
