import RegexGloss.Proofs.Construct.Settled
import RegexGloss.Proofs.Construct.Shift

/-!
# Patterns inside parentheses

A pattern that can be explained by itself can be put between parentheses, where it becomes the body
of a group, or the condition or the branches of a conditional. It is read there as the same
constructs, only further on. Branches are split at their bar when the conditional is closed; a
second bar is a fault, and bars inside groups of the branches do not matter.

Main statements: `explain_group` and `explain_conditional`.
-/

namespace RegexGloss

open Construct

/-! ## Openers -/

/-- A parenthesis that no `?` follows opens a plain group. -/
theorem Lexeme.lex_opening_plain (skipping : Bool) {t : Text} (h : t.head? ≠ some '?') :
    lex skipping ('(' :: t) = opening none 0 :: lex skipping t := by
  rw [lex_cons, Token.read_parenthesis, Token.readOpening_of_head?_ne h]
  rfl

/-- The opener of a group without a capture is read by itself. -/
theorem Lexeme.lex_opening_nonCapturing (skipping : Bool) (t : Text) :
    lex skipping ('(' :: '?' :: ':' :: t) = opening (some .nonCapturing) 2 :: lex skipping t := by
  rw [lex_cons, Token.read_parenthesis]
  rfl

/-- The opener of a conditional is read together with the parenthesis of its condition. -/
theorem Lexeme.lex_openingCondition (skipping : Bool) (t : Text) :
    lex skipping ('(' :: '?' :: '(' :: t) = openingCondition :: lex skipping t := by
  rw [lex_cons, Token.read_parenthesis]
  rfl

/-! ## Groups -/

/-- How the explanation of a group is put together from that of its body, which stands behind an
opener of `width` glyphs and takes up `length` glyphs. -/
structure Explanation.Encloses (whole body : Explanation) (kind : GroupKind) (width length : Nat) :
    Prop where
  /-- The group is the only node, and the nodes of the body are inside it. -/
  tree_eq : whole.tree = [.group kind (Node.shiftAll width body.tree)]
  /-- The entry of the group follows those of the body, and covers everything. -/
  entries_eq : whole.index.entries = body.index.entries.map (Span.shift width) ++
    [.ofNode (.group kind (Node.shiftAll width body.tree)) 0 (length + width)]

variable {o : Options} {cs ds : List Construct} {p : Text}

/-- The explanation of a group. -/
theorem encloses_explanation (o : Options) (hcs : ProperAll cs) (heading : Option GroupKind)
    (extra : Nat) :
    (explanation o [.group heading extra cs]).Encloses (explanation o cs)
      (heading.getD (Assembly.plainKind o)) (extra + 1) (widthAll cs) := by
  have hnode : groupNode o 0 heading extra cs = .group (heading.getD (Assembly.plainKind o))
      (Node.shiftAll (extra + 1) (nodesAll o 0 cs)) := by
    rw [groupNode, nodesAll_add]
  refine ⟨?_, ?_⟩
  · rw [tree_explanation_singleton, nodes_group, hnode]
    rfl
  · rw [entries_explanation_singleton o (c := .group heading extra cs) hcs,
      entries_explanation o hcs, spans, hnode, spansAll_add, Nat.zero_add, Nat.add_comm (widthAll cs)]
    rfl

/-- Constructs that are the body of a group are explained like those of the body alone. -/
theorem Construct.Forms.explain_opening (h : Forms cs o p)
    (hclass : .atom (.charClass .unterminated) ∉ nodesAll o 0 cs)
    (hcomment : ¬Lexeme.EndsInComment o.ignoreWhitespace p) {pattern : Text}
    (heading : Option GroupKind) (extra : Nat)
    (hopen : Lexeme.lex o.ignoreWhitespace pattern =
      opening heading extra :: Lexeme.lex o.ignoreWhitespace (p ++ [')'])) :
    ∃ g, explain pattern o = .ok g ∧
      g.Encloses (explanation o cs) (heading.getD (Assembly.plainKind o)) (extra + 1)
        p.length := by
  have hforms : Forms [.group heading extra cs] o pattern := by
    refine forms_singleton h.proper ?_
    rw [hopen, h.lex_append_closing hclass hcomment, Construct.lexemes, Lexeme.lex_nil]
  refine ⟨_, explain_eq_ok_iff.2 ⟨_, hforms, rfl⟩, ?_⟩
  rw [← h.widthAll_eq]
  exact encloses_explanation o h.proper heading extra

/-- A pattern that can be explained, and in which nothing goes on behind its end, is explained
between parentheses as the body of one group. A plain parenthesis must not stand before a `?`. -/
theorem explain_group {p : Text} {o : Options} {e : Explanation} (hp : explain p o = .ok e)
    (hclass : .atom (.charClass .unterminated) ∉ e.tree)
    (hcomment : ¬Lexeme.EndsInComment o.ignoreWhitespace p) :
    (∃ g, explain ("(?:".toList ++ p ++ [')']) o = .ok g ∧
        g.Encloses e .nonCapturing 3 p.length) ∧
      (p.head? ≠ some '?' → ∃ g, explain ('(' :: p ++ [')']) o = .ok g ∧
        g.Encloses e (if o.explicitCapture then .nonCapturing else .capture) 1 p.length) := by
  obtain ⟨cs, hcs, rfl⟩ := explain_eq_ok_iff.1 hp
  refine ⟨?_, fun hquestion => ?_⟩
  · exact hcs.explain_opening hclass hcomment (some .nonCapturing) 2
      (Lexeme.lex_opening_nonCapturing o.ignoreWhitespace (p ++ [')']))
  · have hhead : (p ++ [')']).head? ≠ some '?' := by
      cases p with
      | nil => simp
      | cons c p => simpa using hquestion
    exact hcs.explain_opening hclass hcomment none 0
      (Lexeme.lex_opening_plain o.ignoreWhitespace hhead)

/-- A quantifier without its brace ends at the parenthesis that closes the group. -/
theorem explain_group_malformed :
    ∃ e g h, explain ['a', '{', '1'] {} = .ok e ∧
      explain ['(', '?', ':', 'a', '{', '1', ')'] {} = .ok g ∧ g.Encloses e .nonCapturing 3 3 ∧
      explain ['(', 'a', '{', '1', ')'] {} = .ok h ∧ h.Encloses e .capture 1 3 := by
  obtain ⟨e, he, hclass⟩ : ∃ e, explain ['a', '{', '1'] {} = .ok e ∧
      .atom (.charClass .unterminated) ∉ e.tree := ⟨_, rfl, by decide⟩
  obtain ⟨⟨g, hg, hencloses⟩, hplain⟩ := explain_group he hclass (Lexeme.not_endsInComment _)
  obtain ⟨h, hh, hcaptures⟩ := hplain (by decide)
  exact ⟨e, g, h, he, hg, hencloses, hh, hcaptures⟩

/-! ## Conditionals -/

/-- How the explanation of a conditional is put together from those of its condition, which takes
up `width` glyphs, and of its branches, which take up `length` glyphs. -/
structure Explanation.Decides (whole condition branches : Explanation) (choice : Node)
    (width length : Nat) : Prop where
  /-- The choice is the only node inside the only group. -/
  tree_eq : whole.tree = [.group .conditional [choice]]
  /-- The entries of the choice, from the parenthesis of the condition on, and of the whole group
  follow those of the condition and of the branches. -/
  entries_eq : whole.index.entries = condition.index.entries.map (Span.shift 3) ++
    branches.index.entries.map (Span.shift (width + 4)) ++
      [.ofNode choice 2 (width + length + 3),
        .ofNode (.group .conditional [choice]) 0 (width + length + 4)]

/-- The bars in a list of nodes are as many as their positions. -/
theorem Node.bars_eq_length (ns : List Node) : bars ns = (ns.filterMap bar?).length :=
  List.length_filterMap_eq_countP.symm

/-- The explanation of a conditional. -/
theorem decides_explanation (o : Options) (hcs : ProperAll cs) (hds : ProperAll ds)
    (hbars : ds.countP isBar ≤ 1) :
    (explanation o [.conditional cs ds]).Decides (explanation o cs) (explanation o ds)
      (.choose (Node.shiftAll 3 (nodesAll o 0 cs))
        (Node.shiftAll (widthAll cs + 4) (nodesAll o 0 ds))) (widthAll cs) (widthAll ds) := by
  have hbranches : 0 + 4 + widthAll cs = 0 + (widthAll cs + 4) := by omega
  have hchoice : choiceNode o 0 cs ds = .choose (Node.shiftAll 3 (nodesAll o 0 cs))
      (Node.shiftAll (widthAll cs + 4) (nodesAll o 0 ds)) := by
    rw [choiceNode, hbranches, nodesAll_add, nodesAll_add]
  have hconditional : (Construct.conditional cs ds).Proper := ⟨hcs, hds, hbars⟩
  refine ⟨?_, ?_⟩
  · rw [tree_explanation_singleton, nodes_conditional, hchoice]
  · have hchoiceEnd : 0 + 3 + widthAll cs + widthAll ds = widthAll cs + widthAll ds + 3 := by omega
    have hend : 0 + 4 + widthAll cs + widthAll ds = widthAll cs + widthAll ds + 4 := by omega
    rw [entries_explanation_singleton o hconditional, entries_explanation o hcs,
      entries_explanation o hds, spans, hchoice, hchoiceEnd, hend, hbranches, spansAll_add,
      spansAll_add]

namespace Construct.Forms

variable {c a : Text}

/-- The tokens of a conditional are those of its condition and of its branches. -/
theorem lex_conditional (hc : Forms cs o c) (ha : Forms ds o a)
    (hclassc : .atom (.charClass .unterminated) ∉ nodesAll o 0 cs)
    (hclassa : .atom (.charClass .unterminated) ∉ nodesAll o 0 ds)
    (hcommentc : ¬Lexeme.EndsInComment o.ignoreWhitespace c)
    (hcommenta : ¬Lexeme.EndsInComment o.ignoreWhitespace a) :
    Lexeme.lex o.ignoreWhitespace ("(?(".toList ++ c ++ ')' :: (a ++ [')'])) =
      (Construct.conditional cs ds).lexemes := by
  show Lexeme.lex o.ignoreWhitespace ('(' :: '?' :: '(' :: (c ++ ')' :: (a ++ [')']))) = _
  rw [Lexeme.lex_openingCondition, hc.lex_append_closing hclassc hcommentc,
    ha.lex_append_closing hclassa hcommenta, Lexeme.lex_nil, Construct.lexemes]

/-- Branches with at most one bar are explained together with their condition. -/
theorem explain_branches (hc : Forms cs o c) (ha : Forms ds o a) {pattern : Text}
    (hlex : Lexeme.lex o.ignoreWhitespace pattern = (Construct.conditional cs ds).lexemes)
    (hbars : Node.bars (nodesAll o 0 ds) ≤ 1) :
    ∃ g, explain pattern o = .ok g ∧ g.Decides (explanation o cs) (explanation o ds)
      (.choose (Node.shiftAll 3 (nodesAll o 0 cs))
        (Node.shiftAll (c.length + 4) (nodesAll o 0 ds))) c.length a.length := by
  rw [bars_nodesAll] at hbars
  have hforms : Forms [.conditional cs ds] o pattern :=
    forms_singleton ⟨hc.proper, ha.proper, hbars⟩ hlex
  refine ⟨_, explain_eq_ok_iff.2 ⟨_, hforms, rfl⟩, ?_⟩
  rw [← hc.widthAll_eq, ← ha.widthAll_eq]
  exact decides_explanation o hc.proper ha.proper hbars

/-- A second bar among branches is a fault. -/
theorem explain_surplusBar (hc : Forms cs o c) (ha : Forms ds o a) {pattern : Text}
    (hlex : Lexeme.lex o.ignoreWhitespace pattern = (Construct.conditional cs ds).lexemes)
    (before after : List Node) {pos : Nat} (hnodes : nodesAll o 0 ds = before ++ .bar pos :: after)
    (hbefore : Node.bars before = 1) :
    explain pattern o = .error ⟨.surplusBar, pos + (c.length + 4)⟩ := by
  obtain ⟨first, rest, rfl, rfl, rfl⟩ := exists_bar_of_nodesAll_eq hnodes
  rw [bars_nodesAll] at hbefore
  have hhalts := Enclosure.Halts.surplusBar .none [] cs first rest [closing] hbefore (by simp)
  have hwidth : (Enclosure.branches .none [] cs).width + widthAll first =
      0 + widthAll first + (c.length + 4) := by
    rw [Enclosure.width_branches, hc.widthAll_eq, widthAll_nil]
    show 0 + 0 + 4 + c.length + widthAll first = _
    omega
  rw [hwidth] at hhalts
  have hproper : (Enclosure.branches .none [] cs).Proper := ⟨trivial, trivial, hc.proper⟩
  refine explain_eq_error_iff.2 ⟨_, _, _, ⟨hproper, ha.proper, ?_⟩, hhalts⟩
  rw [hlex]
  simp [Enclosure.lexemes, Construct.lexemes]

end Construct.Forms

/-- Two patterns that can be explained, and in which nothing goes on behind their ends, are explained
as the condition and the branches of one conditional if at most one bar stands outside of all groups
of the branches. It separates the branches. A second such bar is a fault. -/
theorem explain_conditional {c a : Text} {o : Options} {test branches : Explanation}
    (hc : explain c o = .ok test) (ha : explain a o = .ok branches)
    (hclassc : .atom (.charClass .unterminated) ∉ test.tree)
    (hclassa : .atom (.charClass .unterminated) ∉ branches.tree)
    (hcommentc : ¬Lexeme.EndsInComment o.ignoreWhitespace c)
    (hcommenta : ¬Lexeme.EndsInComment o.ignoreWhitespace a) :
    let pattern := "(?(".toList ++ c ++ ')' :: (a ++ [')'])
    let condition := Node.shiftAll 3 test.tree
    match branches.tree.filterMap Node.bar? with
    | [] => ∃ g, explain pattern o = .ok g ∧
        g.Decides test branches (.ifThen condition (Node.shiftAll (c.length + 4) branches.tree))
          c.length a.length
    | [pos] => ∃ yes no g, branches.tree = yes ++ .bar pos :: no ∧ explain pattern o = .ok g ∧
        g.Decides test branches (.ifThenElse condition (Node.shiftAll (c.length + 4) yes)
          (Node.shiftAll (c.length + 4) no)) c.length a.length
    | _ :: second :: _ => explain pattern o = .error ⟨.surplusBar, second + (c.length + 4)⟩ := by
  intro pattern condition
  obtain ⟨cs, hcs, rfl⟩ := explain_eq_ok_iff.1 hc
  obtain ⟨ds, hds, rfl⟩ := explain_eq_ok_iff.1 ha
  have hlex := hcs.lex_conditional hds hclassc hclassa hcommentc hcommenta
  have hbars := Node.bars_eq_length (nodesAll o 0 ds)
  have htree : (explanation o ds).tree = nodesAll o 0 ds := rfl
  rw [htree]
  cases hpositions : (nodesAll o 0 ds).filterMap Node.bar? with
  | nil =>
    rw [hpositions, List.length_nil] at hbars
    have hdecides := hcs.explain_branches hds hlex (by omega)
    rwa [Node.choose_of_bars_eq_zero _ (by rwa [Node.bars_shiftAll])] at hdecides
  | cons pos positions =>
    obtain ⟨yes, n, no, hbranches, hyes, hn, hno⟩ := List.filterMap_eq_cons_iff.1 hpositions
    obtain rfl := (Node.bar?_eq_some_iff n pos).1 hn
    have hyes : Node.bars yes = 0 := by
      rw [Node.bars_eq_length, List.filterMap_eq_nil_iff.2 hyes, List.length_nil]
    cases positions with
    | nil =>
      rw [hpositions, List.length_singleton] at hbars
      obtain ⟨g, hg, hdecides⟩ := hcs.explain_branches hds hlex (by omega)
      rw [hbranches, Node.shiftAll_append, Node.shiftAll, Node.shift,
        Node.choose_append_bar _ (by rwa [Node.bars_shiftAll])] at hdecides
      exact ⟨yes, no, g, hbranches, hg, hdecides⟩
    | cons second positions =>
      obtain ⟨middle, m, after, hafter, hmiddle, hm, -⟩ := List.filterMap_eq_cons_iff.1 hno
      obtain rfl := (Node.bar?_eq_some_iff m second).1 hm
      refine hcs.explain_surplusBar hds hlex (yes ++ .bar pos :: middle) after ?_ ?_
      · rw [hbranches, hafter, List.append_assoc, List.cons_append]
      · rw [Node.bars_append, hyes, Node.bars, List.countP_cons_of_pos rfl, ← Node.bars,
          Node.bars_eq_length, List.filterMap_eq_nil_iff.2 hmiddle, List.length_nil]

/-- The bar inside a group does not separate the branches. -/
theorem explain_conditional_nested :
    (∃ e f g, explain ['x'] {} = .ok e ∧ explain ['(', '|', ')', '|', 'b'] {} = .ok f ∧
      explain ['(', '?', '(', 'x', ')', '(', '|', ')', '|', 'b', ')'] {} = .ok g ∧
      g.Decides e f (.ifThenElse [.atom (.literal ['x'])] [.group .capture [.bar 6]]
        [.atom (.literal ['b'])]) 1 5) ∧
      explain ['(', '?', '(', 'x', ')', '|', '|', ')'] {} = .error ⟨.surplusBar, 6⟩ := by
  have hcomment := Lexeme.not_endsInComment
  obtain ⟨e, he, hetree⟩ : ∃ e, explain ['x'] {} = .ok e ∧
      e.tree = [.atom (.literal ['x'])] := ⟨_, rfl, rfl⟩
  obtain ⟨f, hf, hftree⟩ : ∃ f, explain ['(', '|', ')', '|', 'b'] {} = .ok f ∧
      f.tree = [.group .capture [.bar 1], .bar 3, .atom (.literal ['b'])] := ⟨_, rfl, rfl⟩
  have heclass : .atom (.charClass .unterminated) ∉ e.tree := by rw [hetree]; decide
  have hfclass : .atom (.charClass .unterminated) ∉ f.tree := by rw [hftree]; decide
  have hbars : explain ['|', '|'] {} = .ok _ := rfl
  refine ⟨?_, explain_conditional he hbars heclass (by decide) (hcomment _) (hcomment _)⟩
  have hnested := explain_conditional he hf heclass hfclass (hcomment _) (hcomment _)
  rw [hetree, hftree] at hnested
  obtain ⟨yes, no, g, hsplit, hg, hdecides⟩ := hnested
  refine ⟨e, f, g, he, hf, hg, ?_⟩
  -- the tree has a single bar, and is split there
  match yes, hsplit with
  | [n], h =>
    cases h
    exact hdecides
  | n :: m :: k :: yes, h => cases yes <;> cases h

end RegexGloss
