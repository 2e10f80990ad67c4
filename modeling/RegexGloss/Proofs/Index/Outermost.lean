import RegexGloss.Proofs.Index.Nesting
import RegexGloss.Proofs.Tree.Blocks

/-!
# Explanations from outermost entries

The lines of an explanation come from the tree, and the texts of the entries from the marks. Yet the
entries that no other entry covers are enough to write the explanation again
(`SpanIndex.retell`): literals that follow each other make up a line, and any other entry has lines
of its own. Where blanks are skipped, several runs of literals may share a line.

Main statement: `text_eq_retell_of_explain`.
-/

namespace RegexGloss

open Text

/-! ## Writing entries -/

namespace Span

/-- No other span of a list covers all glyphs of a span. -/
def IsOutermost (ss : List Span) (s : Span) : Prop := ∀ t ∈ ss, s.Within t → t = s

/-- Whether a span is an outermost one is decidable. -/
instance (ss : List Span) (s : Span) : Decidable (s.IsOutermost ss) :=
  inferInstanceAs (Decidable (∀ t ∈ ss, s.Within t → t = s))

/-- Whether a span is a run of literals. -/
def isLiteral (s : Span) : Bool := s.kind == .literal

/-- The lines of a span that is no run of literals: its text, which is given a line end unless it
has one, with an indentation of its own if it is a bar. -/
def lines (s : Span) : Text :=
  spaces (if s.kind = .alternation then 2 else 0) ++
    if endsLine s.text then s.text else s.text ++ lineEnd

/-- The text of runs of literals that share a line. -/
def joinedText (ss : List Span) : Text := (ss.map text).flatten

/-- Spans in blocks: runs of literals that follow each other are in one block, and every other span
is a block by itself. -/
def blocks (ss : List Span) : List (List Span) :=
  ss.splitBy fun s t => s.isLiteral && t.isLiteral

/-- The lines of a block: a single line for runs of literals. -/
def blockLines (block : List Span) : Text :=
  if block.all isLiteral then joinedText block ++ lineEnd else block.flatMap lines

theorem blocks_append {ss ts : List Span} (h : ∀ t ∈ ts.head?, t.isLiteral = false) :
    blocks (ss ++ ts) = blocks ss ++ blocks ts :=
  blocksBy_append fun s _ t ht => by rw [h t ht, Bool.and_false]

/-- A span that is no run of literals is a block by itself. -/
theorem blocks_cons {s : Span} (h : s.isLiteral = false) (ss : List Span) :
    blocks (s :: ss) = [s] :: blocks ss :=
  blocksBy_cons h ss

/-- Runs of literals alone are one block. -/
theorem blocks_of_literals {ss : List Span} (hss : ss ≠ []) (h : ∀ s ∈ ss, s.isLiteral = true) :
    blocks ss = [ss] :=
  blocksBy_of_forall hss h

end Span

namespace SpanIndex

/-- The entries that lie inside no other entry, in the order of their registration. -/
def outermost (i : SpanIndex) : List Span :=
  i.entries.filter (·.IsOutermost i.entries)

/-- The explanation in words, written from the outermost entries. -/
def retell (i : SpanIndex) : Text := (Span.blocks i.outermost).flatMap Span.blockLines

end SpanIndex

namespace Construct

/-! ## Outermost entries of constructs -/

/-- The entries of constructs as wholes, from an offset on. -/
def wholeSpans (o : Options) (offset : Nat) : List Construct → List Span
  | [] => []
  | c :: cs => (c.span? o offset).toList ++ wholeSpans o (offset + c.width) cs

/-- The last entry of a construct lies inside no other entry of it, and the others lie inside the
last one. -/
theorem exists_spans_eq_concat {o : Options} {offset : Nat} {c : Construct} {s : Span}
    (h : c.span? o offset = some s) :
    ∃ inner, c.spans o offset = inner ++ [s] ∧ ∀ t ∈ inner, t.Within s ∧ ¬s.Within t := by
  obtain ⟨inner, hspans⟩ := List.getLast?_eq_some_iff.1 ((getLast?_spans o offset c).trans h)
  obtain ⟨hstart, hstop⟩ := ends_of_span?_eq_some h
  have hpairwise := pairwise_spans o offset c
  have hbetween := between_of_mem_spans o offset c
  rw [hspans] at hpairwise hbetween
  refine ⟨inner, hspans, fun t ht => ?_⟩
  obtain ⟨hfirst, hle, hbound⟩ := hbetween t (List.mem_append_left _ ht)
  have hprecedes := (List.pairwise_append.1 hpairwise).2.2 t ht s (List.mem_singleton_self s)
  have hwithin : t.Within s := ⟨by omega, by omega⟩
  refine ⟨hwithin, fun hs => ?_⟩
  -- neither before the whole nor behind its start can anything reach around it
  rcases hprecedes.2 with hlt | ⟨hlt, -⟩
  · have := hs.2
    omega
  · have := hs.1
    omega

/-- Of the entries of a construct among others, just the one of the whole is an outermost one. -/
theorem filter_spans_outermost (o : Options) (before after : List Construct) (c : Construct) :
    (c.spans o (widthAll before)).filter (·.IsOutermost (spansAll o 0 (before ++ c :: after))) =
      (c.span? o (widthAll before)).toList := by
  have hmem (t : Span) : t ∈ spansAll o 0 (before ++ c :: after) ↔
      t ∈ spansAll o 0 before ∨ t ∈ c.spans o (widthAll before) ∨
        t ∈ spansAll o (widthAll before + c.width) after := by
    rw [spansAll_append, spansAll_cons, Nat.zero_add, List.mem_append, List.mem_append]
  cases hc : c.span? o (widthAll before) with
  | none =>
    have hskipped : c.isSkipped = true := by
      rw [← Bool.not_eq_false]
      intro hskipped
      obtain ⟨s, hs⟩ := exists_span?_eq_some o (widthAll before) hskipped
      rw [hc] at hs
      cases hs
    obtain ⟨comment, extra, rfl⟩ : ∃ comment extra, c = .skipped comment extra := by
      cases c <;> simp_all [isSkipped]
    rfl
  | some s =>
    obtain ⟨inner, hspans, hinner⟩ := exists_spans_eq_concat hc
    obtain ⟨hstart, hstop⟩ := ends_of_span?_eq_some hc
    have hpos := c.width_pos
    have hwhole : s.IsOutermost (spansAll o 0 (before ++ c :: after)) := by
      intro t ht hwithin
      obtain ⟨hle, hge⟩ := hwithin
      rcases (hmem t).1 ht with ht | ht | ht
      -- the constructs before and behind do not reach around this one
      · have := (between_of_mem_spansAll o 0 before t ht).2.2
        omega
      · rw [hspans, List.mem_append, List.mem_singleton] at ht
        exact ht.resolve_left fun ht => (hinner t ht).2 ⟨hle, hge⟩
      · have := (between_of_mem_spansAll o _ after t ht).1
        omega
    rw [hspans, List.filter_append, List.filter_eq_nil_iff.2 ?_, List.nil_append,
      List.filter_eq_self.2 fun t ht => List.mem_singleton.1 ht ▸ decide_eq_true hwhole]
    · rfl
    · intro t ht houtermost
      obtain ⟨hwithin, hnot⟩ := hinner t ht
      have hs : s ∈ spansAll o 0 (before ++ c :: after) :=
        (hmem s).2 (.inr (.inl (mem_spans_of_span?_eq_some hc)))
      obtain rfl : s = t := of_decide_eq_true houtermost s hs hwithin
      exact hnot hwithin

/-- The outermost entries are those of the constructs outside of all groups. -/
theorem outermost_explanation (o : Options) {cs : List Construct} (h : ProperAll cs) :
    (explanation o cs).index.outermost = wholeSpans o 0 cs := by
  rw [SpanIndex.outermost, entries_explanation o h]
  -- what comes before and behind stays the same for all constructs
  have hsuffix (before after : List Construct) (hcs : before ++ after = cs) :
      (spansAll o (widthAll before) after).filter (·.IsOutermost (spansAll o 0 cs)) =
        wholeSpans o (widthAll before) after := by
    induction after generalizing before with
    | nil => rfl
    | cons c after ih =>
      have hrest := ih (before ++ [c]) (by rw [List.append_assoc, List.singleton_append, hcs])
      rw [widthAll_append, widthAll_cons, widthAll_nil, Nat.add_zero] at hrest
      subst hcs
      rw [spansAll_cons, List.filter_append, filter_spans_outermost, hrest, wholeSpans]
  exact hsuffix [] cs rfl

/-! ## Lines of constructs -/

/-- The atoms of constructs have visible descriptions. -/
def Described (cs : List Construct) : Prop := ∀ l ∈ lexemesAll cs, l.token.Described

theorem Forms.described {cs : List Construct} {o : Options} {pattern : Text}
    (h : Forms cs o pattern) : Described cs := by
  intro l hl
  rw [h.lexemesAll_eq] at hl
  exact Lexeme.described_of_mem_lex hl

/-- A visible text is written as whole lines by giving it a line end if need be. -/
theorem endLine_of_isVisible {t : Text} (h : t.isVisible = true) :
    endLine t = if endsLine t then t else t ++ lineEnd := by
  rw [endLine, if_neg]
  rw [List.isEmpty_iff]
  exact ne_nil_of_isVisible h

/-- The lines of a node with a visible text are those of its entry. -/
theorem endLine_render {n : Node} (h : (n.render 0).isVisible = true)
    (hkind : n.kind ≠ .alternation) (start stop : Nat) :
    endLine (n.render 0) = (Span.ofNode n start stop).lines := by
  have hdescribe : n.describe = n.render 0 := dropSpaces_of_isVisible h
  rw [endLine_of_isVisible h, Span.lines, Span.ofNode, if_neg hkind, hdescribe]
  rfl

/-- A construct that is neither skipped nor a run adds one node, and the lines of this node are
those of its entry. -/
theorem exists_lines_eq (o : Options) (offset : Nat) {c : Construct} (hc : c.Proper)
    (hdescribed : ∀ l ∈ c.lexemes, l.token.Described) (hskipped : c.isSkipped = false)
    (hrun : c.isRun = false) :
    ∃ n s, c.nodes o offset = [n] ∧ n.literal? = none ∧ c.span? o offset = some s ∧
      s.isLiteral = false ∧ endLine (n.render 0) = s.lines := by
  cases c with
  | skipped comment extra => cases hskipped
  | run first more => cases hrun
  | atom a extra =>
    have hvisible : a.describe.isVisible = true := hdescribed _ (List.mem_singleton_self _) a rfl
    refine ⟨.atom a, _, rfl, ?_, rfl, beq_eq_false_iff_ne.2 hc,
      endLine_render (n := .atom a) hvisible ?_ _ _⟩
    · cases a with
      | literal text => exact absurd rfl hc
      | _ => rfl
    · cases a <;> simp [Node.kind, Atom.kind]
  | bar => exact ⟨.bar offset, _, rfl, rfl, rfl, rfl, rfl⟩
  | bare kind extra =>
    exact ⟨.bare kind, _, rfl, rfl, rfl, rfl,
      endLine_render (n := .bare kind) kind.isVisible_describe (by simp [Node.kind]) _ _⟩
  | group heading extra body =>
    refine ⟨groupNode o offset heading extra body, _, rfl, rfl, rfl, rfl,
      endLine_render ?_ (by simp [groupNode, Node.kind]) _ _⟩
    rw [groupNode, Node.render]
    simp only [List.append_assoc]
    exact isVisible_append (GroupKind.isVisible_describe _) _
  | conditional condition branches =>
    refine ⟨.group .conditional [choiceNode o offset condition branches], _, rfl, rfl, rfl, rfl,
      endLine_render ?_ (by simp [Node.kind]) _ _⟩
    rw [Node.render]
    simp only [List.append_assoc]
    exact isVisible_append (GroupKind.isVisible_describe _) _

/-- Literals that follow each other are written behind those before them. -/
theorem renderFrom_literals (indent : Nat) (before : Text) (ls : List Literal) (ns : List Node) :
    Node.renderFrom indent before (ls.map Literal.node ++ ns) =
      Node.renderFrom indent (before ++ Literal.textAll ls) ns := by
  induction ls generalizing before with
  | nil => rw [Literal.textAll, List.map_nil, List.map_nil, List.flatten_nil, List.append_nil,
      List.nil_append]
  | cons l ls ih =>
    rw [List.map_cons, List.cons_append, Literal.node, Node.renderFrom_literal, ih,
      List.append_assoc]
    rfl

/-- The line of runs of literals is that of their block. -/
theorem line_joinedText {waiting : List Span}
    (h : ∀ s ∈ waiting, s.isLiteral = true ∧ s.text.isVisible = true) :
    line 0 (Span.joinedText waiting) = (Span.blocks waiting).flatMap Span.blockLines := by
  cases waiting with
  | nil => rfl
  | cons s waiting =>
    have hvisible : (Span.joinedText (s :: waiting)).isVisible = true :=
      isVisible_append (h s List.mem_cons_self).2 _
    have hall : (s :: waiting).all Span.isLiteral = true :=
      List.all_eq_true.2 fun t ht => (h t ht).1
    rw [Span.blocks_of_literals (List.cons_ne_nil s waiting) fun t ht => (h t ht).1,
      List.flatMap_singleton, Span.blockLines, if_pos hall, line, if_neg]
    · rfl
    · rw [List.isEmpty_iff]
      exact ne_nil_of_isVisible hvisible

/-- The lines of constructs are those of their entries as wholes. Runs of literals that a line has
been started with may come before. -/
theorem renderFrom_nodesAll (o : Options) (offset : Nat) {cs : List Construct} (hcs : ProperAll cs)
    (hdescribed : Described cs) (waiting : List Span)
    (hwaiting : ∀ s ∈ waiting, s.isLiteral = true ∧ s.text.isVisible = true) :
    Node.renderFrom 0 (Span.joinedText waiting) (nodesAll o offset cs) =
      (Span.blocks (waiting ++ wholeSpans o offset cs)).flatMap Span.blockLines := by
  induction cs generalizing offset waiting with
  | nil =>
    rw [wholeSpans, List.append_nil, ← line_joinedText hwaiting]
    rfl
  | cons c cs ih =>
    obtain ⟨hc, -, hcs⟩ := hcs
    have ih := ih (offset + c.width) hcs fun l hl => hdescribed l (List.mem_append_right _ hl)
    cases hrun : c.isRun with
    | true =>
      obtain ⟨first, more, rfl⟩ : ∃ first more, c = .run first more := by
        cases c <;> simp_all [isRun]
      have hfirst : first.text.isVisible = true :=
        hdescribed first.lexeme List.mem_cons_self (.literal first.text) rfl
      -- the run waits for others that may share its line
      have hrest := ih (waiting ++ [⟨.literal, offset,
        offset + first.extra + Literal.widthAll more, Literal.textAll (first :: more)⟩]) ?_
      · rw [Span.joinedText, List.map_append, List.flatten_append, List.map_singleton,
          List.flatten_singleton, List.append_assoc] at hrest
        rw [nodesAll_cons, nodes, renderFrom_literals]
        exact hrest
      · intro s hs
        rcases List.mem_append.1 hs with hs | hs
        · exact hwaiting s hs
        · obtain rfl := List.mem_singleton.1 hs
          exact ⟨rfl, isVisible_append hfirst _⟩
    | false =>
      cases hskipped : c.isSkipped with
      | true =>
        obtain ⟨comment, extra, rfl⟩ : ∃ comment extra, c = .skipped comment extra := by
          cases c <;> simp_all [isSkipped]
        -- what is skipped between runs does not keep them from sharing a line
        exact ih waiting hwaiting
      | false =>
        obtain ⟨n, s, hnodes, hn, hs, hsliteral, hlines⟩ := exists_lines_eq o offset hc
          (fun l hl => hdescribed l (List.mem_append_left _ hl)) hskipped hrun
        have hrest : Node.renderAll 0 (nodesAll o (offset + c.width) cs) =
            (Span.blocks (wholeSpans o (offset + c.width) cs)).flatMap Span.blockLines :=
          ih [] nofun
        have hblock : Span.blockLines [s] = s.lines := by
          simp [Span.blockLines, hsliteral]
        rw [nodesAll_cons, hnodes, List.singleton_append, Node.renderFrom_cons _ _ hn,
          line_joinedText hwaiting, hlines, hrest, wholeSpans, hs, Option.toList_some,
          List.singleton_append, Span.blocks_append (by simpa using hsliteral),
          Span.blocks_cons hsliteral, List.flatMap_append, List.flatMap_cons, hblock,
          List.append_assoc]

end Construct

open Construct

/-- The explanation in words is that of the outermost entries. -/
theorem text_eq_retell_of_explain {pattern : Text} {o : Options} {e : Explanation}
    (h : explain pattern o = .ok e) : e.text = e.index.retell := by
  obtain ⟨cs, hcs, rfl⟩ := explain_eq_ok_iff.1 h
  rw [SpanIndex.retell, outermost_explanation o hcs.proper]
  exact renderFrom_nodesAll o 0 hcs.proper hcs.described [] nofun

theorem text_eq_retell_skipped :
    ∃ e, explain ['a', ' ', 'b', '|', '(', 'c', ')'] ⟨true, false⟩ = .ok e ∧
      e.index.outermost.length = 4 ∧ e.text = e.index.retell := by
  obtain ⟨e, he, hlength⟩ : ∃ e, explain ['a', ' ', 'b', '|', '(', 'c', ')'] ⟨true, false⟩ =
      .ok e ∧ e.index.outermost.length = 4 := ⟨_, rfl, by decide⟩
  exact ⟨e, he, hlength, text_eq_retell_of_explain he⟩

end RegexGloss
