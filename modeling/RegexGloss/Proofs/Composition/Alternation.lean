import RegexGloss.Proofs.Construct.Settled
import RegexGloss.Proofs.Construct.Shift

/-!
# Alternatives side by side

Two patterns with a bar between them are read one after the other: the first one as it is by
itself, the second one as it is by itself but further on. So the explanation of both is put
together from theirs, and a fault of the second one stays the same fault. Main statement:
`explain_alternation`.
-/

namespace RegexGloss

open Text

/-- The token of a bar. -/
theorem Lexeme.lex_bar (skipping : Bool) (t : Text) :
    lex skipping ('|' :: t) = ⟨.bar, 1⟩ :: lex skipping t := by
  cases skipping <;> rfl

/-- Nodes on both sides of one that is no literal are rendered apart from each other. -/
theorem Node.renderFrom_append_cons (indent : Nat) (run : Text) (ms : List Node) {n : Node}
    (hn : n.literal? = none) (ns : List Node) :
    renderFrom indent run (ms ++ n :: ns) =
      renderFrom indent run ms ++ endLine (render indent n) ++ renderAll indent ns := by
  induction ms generalizing run with
  | nil => rw [List.nil_append, renderFrom_cons indent run hn, renderFrom]
  | cons m ms ih =>
    rw [List.cons_append, renderFrom, renderFrom]
    cases m.literal? with
    | some text => exact ih (run ++ text)
    | none => simp only [ih [], List.append_assoc]

namespace Construct

variable {o : Options} {cs ds : List Construct} {p q : Text}

/-- The tokens of two patterns with a bar between them. -/
theorem Forms.lex_alternation (h : Forms cs o p)
    (hclass : .atom (.charClass .unterminated) ∉ nodesAll o 0 cs)
    (hquantifier : .atom (.quantifier .unterminated) ∉ nodesAll o 0 cs)
    (hcomment : ¬Lexeme.EndsInComment o.ignoreWhitespace p) (q : Text) :
    Lexeme.lex o.ignoreWhitespace (p ++ '|' :: q) =
      lexemesAll (cs ++ [.bar]) ++ Lexeme.lex o.ignoreWhitespace q := by
  rw [Lexeme.lex_append (.inl rfl) (h.settledAll hclass (.inl hquantifier) hcomment),
    Lexeme.lex_bar, ← h.lexemesAll_eq, lexemesAll_append, List.append_assoc]
  rfl

theorem properAll_bar (hcs : ProperAll cs) (hds : ProperAll ds) :
    ProperAll (cs ++ .bar :: ds) :=
  (properAll_append_iff _ _).2 ⟨hcs, ⟨trivial, nofun, hds⟩, .inr (by simp [StartsNoRun, isRun])⟩

end Construct

/-- How the explanation of two patterns with a bar between them, which stands behind `width` glyphs,
is put together from the explanations of both. -/
structure Explanation.Alternates (whole first second : Explanation) (width : Nat) : Prop where
  /-- The nodes of both are on the two sides of the bar. -/
  tree_eq : whole.tree = first.tree ++ .bar width :: Node.shiftAll (width + 1) second.tree
  /-- The entries of both are before and behind that of the bar. -/
  entries_eq : whole.index.entries = first.index.entries ++
    ⟨.alternation, width, width, "or".toList⟩ ::
      second.index.entries.map (Span.shift (width + 1))
  /-- The bar has a line between the lines of both. -/
  text_eq : whole.text = first.text ++ "  or".toList ++ lineEnd ++ second.text

open Construct

/-- The nodes of constructs with a bar between them. -/
theorem nodesAll_alternation (o : Options) (cs ds : List Construct) :
    nodesAll o 0 (cs ++ .bar :: ds) =
      nodesAll o 0 cs ++
        .bar (widthAll cs) :: Node.shiftAll (widthAll cs + 1) (nodesAll o 0 ds) := by
  rw [nodesAll_append, nodesAll_cons, width_bar, Nat.add_assoc, nodesAll_add, Nat.zero_add]
  rfl

/-- The entries of constructs with a bar between them. -/
theorem spansAll_alternation (o : Options) (cs ds : List Construct) :
    spansAll o 0 (cs ++ .bar :: ds) =
      spansAll o 0 cs ++ ⟨.alternation, widthAll cs, widthAll cs, "or".toList⟩ ::
        (spansAll o 0 ds).map (Span.shift (widthAll cs + 1)) := by
  rw [spansAll_append, spansAll_cons, width_bar, Nat.add_assoc, spansAll_add, Nat.zero_add]
  rfl

/-- The explanation of constructs with a bar between them. -/
theorem alternates_explanation (o : Options) {cs ds : List Construct} (hcs : ProperAll cs)
    (hds : ProperAll ds) :
    (explanation o (cs ++ .bar :: ds)).Alternates (explanation o cs) (explanation o ds)
      (widthAll cs) where
  tree_eq := nodesAll_alternation o cs ds
  entries_eq := by
    rw [entries_explanation o (properAll_bar hcs hds), entries_explanation o hcs,
      entries_explanation o hds, spansAll_alternation]
  text_eq := by
    show Node.renderFrom 0 [] (nodesAll o 0 (cs ++ .bar :: ds)) =
      Node.renderFrom 0 [] (nodesAll o 0 cs) ++ "  or".toList ++ lineEnd ++
        Node.renderFrom 0 [] (nodesAll o 0 ds)
    have hbar : endLine (Node.render 0 (.bar (widthAll cs))) = "  or".toList ++ lineEnd := rfl
    rw [nodesAll_alternation, Node.renderFrom_append_cons 0 [] _ rfl, Node.renderAll,
      Node.renderFrom_shiftAll, hbar, ← List.append_assoc]

/-- Where a first pattern can be explained and nothing in it goes on behind its end, two patterns
with a bar between them are explained like each of them, and fail like the second one. -/
theorem explain_alternation {p : Text} {o : Options} {e : Explanation} (hp : explain p o = .ok e)
    (hclass : .atom (.charClass .unterminated) ∉ e.tree)
    (hquantifier : .atom (.quantifier .unterminated) ∉ e.tree)
    (hcomment : ¬Lexeme.EndsInComment o.ignoreWhitespace p) (q : Text) :
    match explain q o with
    | .ok f => ∃ g, explain (p ++ '|' :: q) o = .ok g ∧ g.Alternates e f p.length
    | .error f => explain (p ++ '|' :: q) o = .error (f.shift (p.length + 1)) := by
  obtain ⟨cs, hcs, rfl⟩ := explain_eq_ok_iff.1 hp
  have hlex := hcs.lex_alternation hclass hquantifier hcomment q
  cases hq : explain q o with
  | ok f =>
    obtain ⟨ds, hds, rfl⟩ := explain_eq_ok_iff.1 hq
    have hforms : Forms (cs ++ .bar :: ds) o (p ++ '|' :: q) := by
      refine ⟨properAll_bar hcs.proper hds.proper, ?_⟩
      rw [hlex, ← hds.lexemesAll_eq, ← lexemesAll_append, List.append_assoc]
      rfl
    refine ⟨_, explain_eq_ok_iff.2 ⟨_, hforms, rfl⟩, ?_⟩
    rw [← hcs.widthAll_eq]
    exact alternates_explanation o hcs.proper hds.proper
  | error f =>
    -- the constructs of the first pattern and the bar are taken before anything of the second one
    have hbar := properAll_bar hcs.proper properAll_nil
    have hrun := Assembly.run_lexemesAll o { offset := 0 } _ hbar
    have hwidth : widthAll (cs ++ [.bar]) = p.length + 1 := by
      rw [widthAll_append, hcs.widthAll_eq]
      rfl
    obtain ⟨enclosure, es, rest, hbegins, hhalts⟩ := explain_eq_error_iff.1 hq
    show explain (p ++ '|' :: q) o = .error (f.shift (p.length + 1))
    rw [explain_eq_error_iff_exists_reached, hlex, Assembly.assemble,
      Assembly.run_append_of_run hrun,
      Assembly.exists_reached_iff rfl fun _ => Lexeme.shaped_of_mem_lex]
    refine ⟨enclosure, es, rest, f, hbegins, hhalts, ?_⟩
    rw [Assembly.offset_extend, hwidth, Nat.zero_add]

/-- Whether reading fails behind the bar depends on the second pattern alone. -/
theorem explain_alternation_literals :
    (∃ e g f, explain ['a'] {} = .ok e ∧ explain ['b'] {} = .ok f ∧
      explain ['a', '|', 'b'] {} = .ok g ∧ g.Alternates e f 1) ∧
      explain ['a', '|', ')'] {} = .error ⟨.surplusClose, 2⟩ := by
  obtain ⟨e, he, hclass, hquantifier⟩ : ∃ e, explain ['a'] {} = .ok e ∧
      .atom (.charClass .unterminated) ∉ e.tree ∧ .atom (.quantifier .unterminated) ∉ e.tree :=
    ⟨_, rfl, by decide, by decide⟩
  have hcomment : ¬Lexeme.EndsInComment false ['a'] := by
    rintro ⟨l, hl, hcomment⟩
    cases hl
    cases hcomment
  obtain ⟨g, hg, halternates⟩ := explain_alternation he hclass hquantifier hcomment ['b']
  exact ⟨⟨e, g, _, he, rfl, hg, halternates⟩,
    explain_alternation he hclass hquantifier hcomment [')']⟩

end RegexGloss
