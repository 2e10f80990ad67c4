import RegexGloss.Proofs.Index.Outermost
import RegexGloss.Proofs.Index.Slices
import RegexGloss.Proofs.Token.Literal

/-!
# Runs of literals

Literals are collected in runs, one entry for each. Two tokens of literals that follow each other
are always in the same run, at any depth and however many glyphs they take up, and no run goes on
behind anything else: a parenthesis, another atom, or what is skipped. So a run never ends where
another one starts, and nothing but literals lies inside of it.

The glyphs of a run split into those of its literals, and its text says them one after the other.
The runs of an index share the literals of the tree among them, in order, none left out and none
told twice.

Main statement: `literalRuns_of_explain`.
-/

namespace RegexGloss

/-! ## Literals of a tree -/

namespace Node

mutual

/-- The texts of the literals that a node is made of, at any depth, in the order of the pattern. -/
def literals : Node → List Text
  | atom (.literal text) => [text]
  | atom _ | bar _ | bare _ => []
  | group _ body => literalsAll body
  | ifThen condition yes => literalsAll condition ++ literalsAll yes
  | ifThenElse condition yes no => literalsAll condition ++ (literalsAll yes ++ literalsAll no)
termination_by structural n => n

/-- The texts of the literals of a tree. -/
def literalsAll : List Node → List Text
  | [] => []
  | n :: ns => literals n ++ literalsAll ns
termination_by structural ns => ns

end

@[simp]
theorem literalsAll_nil : literalsAll [] = [] := rfl

@[simp]
theorem literalsAll_cons (n : Node) (ns : List Node) :
    literalsAll (n :: ns) = n.literals ++ literalsAll ns := rfl

theorem literalsAll_singleton (n : Node) : literalsAll [n] = n.literals := List.append_nil _

theorem literals_group (kind : GroupKind) (body : List Node) :
    (group kind body).literals = literalsAll body := rfl

theorem literalsAll_append (ms ns : List Node) :
    literalsAll (ms ++ ns) = literalsAll ms ++ literalsAll ns := by
  induction ms with
  | nil => rfl
  | cons m ms ih => rw [List.cons_append, literalsAll_cons, ih, literalsAll_cons, List.append_assoc]

/-- The bar that separates branches is no literal, so none is lost with it. -/
theorem literals_choose (condition branches : List Node) :
    (choose condition branches).literals = literalsAll condition ++ literalsAll branches := by
  rcases choose_eq_or condition branches with h | ⟨yes, pos, no, rfl, h⟩
  · rw [h]
    rfl
  · rw [h, literalsAll_append]
    rfl

theorem literals_atom {a : Atom} (h : a.kind ≠ .literal) : (atom a).literals = [] := by
  cases a with
  | literal text => exact absurd rfl h
  | _ => rfl

theorem literalsAll_map_node (ls : List Literal) :
    literalsAll (ls.map Literal.node) = ls.map Literal.text := by
  induction ls with
  | nil => rfl
  | cons l ls ih =>
    rw [List.map_cons, literalsAll_cons, ih]
    rfl

end Node

/-! ## Runs of an index -/

namespace Span

/-- The glyphs of a span write literals with these texts, and the span says them. -/
def Says (skipping : Bool) (pattern : Text) (s : Span) (texts : List Text) : Prop :=
  Text.WritesLiterals skipping (s.slice pattern) texts ∧ s.text = texts.flatten

/-- Spans say literals with these texts, each of them in just one span, and in the same order. -/
def SayAll (skipping : Bool) (pattern : Text) (ss : List Span) (texts : List Text) : Prop :=
  ∃ parts : List (List Text), parts.flatten = texts ∧
    List.Forall₂ (Says skipping pattern) ss parts

/-- A span does not start where an earlier one ends if both are runs of literals. -/
def Apart (s t : Span) : Prop := s.isLiteral → t.isLiteral → t.start ≠ s.stop + 1

variable {skipping : Bool} {pattern : Text}

theorem sayAll_nil : SayAll skipping pattern [] [] := ⟨[], rfl, .nil⟩

theorem sayAll_singleton {s : Span} {texts : List Text} (h : s.Says skipping pattern texts) :
    SayAll skipping pattern [s] texts :=
  ⟨[texts], List.flatten_singleton, .cons h .nil⟩

theorem SayAll.append {ss ts : List Span} {texts texts' : List Text}
    (hs : SayAll skipping pattern ss texts) (ht : SayAll skipping pattern ts texts') :
    SayAll skipping pattern (ss ++ ts) (texts ++ texts') := by
  obtain ⟨parts, rfl, hparts⟩ := hs
  obtain ⟨parts', rfl, hparts'⟩ := ht
  exact ⟨parts ++ parts', List.flatten_append, List.rel_append hparts hparts'⟩

end Span

/-- Behind tokens that are read from a place on, the others are read from a later place on. -/
theorem Lexeme.lex_drop_add {skipping : Bool} {t : Text} {offset : Nat} (before : List Lexeme)
    {after : List Lexeme} (h : lex skipping (t.drop offset) = before ++ after) :
    lex skipping (t.drop (offset + (before.map width).sum)) = after := by
  rw [← List.drop_drop]
  exact lex_drop h

namespace Construct

/-! ## Neighbouring runs -/

/-- The entry of a choice is no run. -/
theorem isLiteral_choice (o : Options) (offset : Nat) (condition branches : List Construct)
    (start stop : Nat) :
    (Span.ofNode (choiceNode o offset condition branches) start stop).isLiteral = false := by
  rw [Span.isLiteral, Span.ofNode, choiceNode, Node.kind_choose]
  rfl

/-- A run that is not the whole construct lies behind its first glyph and before its last one. -/
theorem between_of_isLiteral {o : Options} {offset : Nat} {c : Construct} (hc : c.Proper)
    (hrun : c.isRun = false) {s : Span} (hs : s ∈ c.spans o offset) (hliteral : s.isLiteral) :
    s.Between (offset + 1) (offset + c.width - 1) := by
  cases c with
  | skipped comment extra => cases hs
  | run first more => cases hrun
  -- an atom of its own is no literal, because literals are collected in runs
  | atom a extra =>
    obtain rfl := List.mem_singleton.1 hs
    exact absurd (beq_iff_eq.1 hliteral) hc
  | bar =>
    obtain rfl := List.mem_singleton.1 hs
    cases hliteral
  | bare kind extra =>
    obtain rfl := List.mem_singleton.1 hs
    cases hliteral
  -- a run inside has the parentheses around it
  | group heading extra body =>
    rcases List.mem_append.1 hs with hs | hs
    · rw [width_group]
      exact (between_of_mem_spansAll o _ body s hs).mono (by omega) (by omega)
    · obtain rfl := List.mem_singleton.1 hs
      cases hliteral
  | conditional condition branches =>
    rw [width_conditional]
    simp only [spans, List.mem_append, List.mem_cons, List.not_mem_nil, or_false] at hs
    rcases hs with (hs | hs) | rfl | rfl
    · exact (between_of_mem_spansAll o _ condition s hs).mono (by omega) (by omega)
    · exact (between_of_mem_spansAll o _ branches s hs).mono (by omega) (by omega)
    · rw [isLiteral_choice] at hliteral
      cases hliteral
    · cases hliteral

/-- No run starts with constructs that start with none. -/
theorem lt_start_of_isLiteral {o : Options} {offset : Nat} {cs : List Construct}
    (hcs : ProperAll cs) (hstart : StartsNoRun cs) {s : Span} (hs : s ∈ spansAll o offset cs)
    (hliteral : s.isLiteral) : offset < s.start := by
  cases cs with
  | nil => cases hs
  | cons c cs =>
    have hrun : c.isRun = false := hstart c rfl
    rw [spansAll_cons, List.mem_append] at hs
    rcases hs with hs | hs
    · exact (between_of_isLiteral hcs.1 hrun hs hliteral).1
    · have hpos := c.width_pos
      have hle := (between_of_mem_spansAll o _ cs s hs).1
      omega

mutual

/-- No run of a construct starts where an earlier one ends. -/
theorem pairwise_apart_spans (o : Options) (offset : Nat) :
    (c : Construct) → c.Proper → (c.spans o offset).Pairwise Span.Apart
  | .skipped _ _, _ => List.Pairwise.nil
  | .run _ _, _ | .atom _ _, _ | .bar, _ | .bare _ _, _ => List.pairwise_singleton _ _
  | .group heading extra body, h => by
    refine List.pairwise_append.2 ⟨pairwise_apart_spansAll o _ body h,
      List.pairwise_singleton _ _, ?_⟩
    intro s _ t ht _ hliteral
    obtain rfl := List.mem_singleton.1 ht
    cases hliteral
  | .conditional condition branches, ⟨hcondition, hbranches, _⟩ => by
    refine List.pairwise_append.2 ⟨List.pairwise_append.2
      ⟨pairwise_apart_spansAll o _ condition hcondition,
        pairwise_apart_spansAll o _ branches hbranches, ?_⟩, ?_, ?_⟩
    -- the parenthesis of the condition stands between a run of it and one of the branches
    · intro s hs t ht _ _
      have hstop := (between_of_mem_spansAll o _ condition s hs).2.2
      have hle := (between_of_mem_spansAll o _ branches t ht).1
      omega
    · refine List.pairwise_pair.2 fun hliteral => ?_
      rw [isLiteral_choice] at hliteral
      cases hliteral
    · intro s _ t ht _ hliteral
      simp only [List.mem_cons, List.not_mem_nil, or_false] at ht
      rcases ht with rfl | rfl
      · rw [isLiteral_choice] at hliteral
        cases hliteral
      · cases hliteral

/-- No run of constructs starts where an earlier one ends. -/
theorem pairwise_apart_spansAll (o : Options) (offset : Nat) :
    (cs : List Construct) → ProperAll cs → (spansAll o offset cs).Pairwise Span.Apart
  | [], _ => List.Pairwise.nil
  | c :: cs, ⟨hc, hrun, hcs⟩ => by
    refine List.pairwise_append.2 ⟨pairwise_apart_spans o offset c hc,
      pairwise_apart_spansAll o _ cs hcs, ?_⟩
    intro s hs t ht hliteral hliteral' hmeet
    -- the two could meet only where the first construct ends
    have hle := (between_of_mem_spansAll o _ cs t ht).1
    have hstop := (between_of_mem_spans o offset c s hs).2.2
    cases hcrun : c.isRun with
    -- what follows a run does not start with one
    | true =>
      have hlt := lt_start_of_isLiteral hcs (hrun hcrun) ht hliteral'
      omega
    -- any other construct ends with a glyph that no run of it covers
    | false =>
      have hinside := (between_of_isLiteral hc hcrun hs hliteral).2.2
      omega

end

/-! ## Glyphs and texts of runs -/

/-- The runs of a group are those of its body. -/
theorem filter_spans_group (o : Options) (offset : Nat) (heading : Option GroupKind) (extra : Nat)
    (body : List Construct) :
    ((group heading extra body).spans o offset).filter Span.isLiteral =
      (spansAll o (offset + (extra + 1)) body).filter Span.isLiteral := by
  rw [spans, List.filter_append]
  exact List.append_nil _

/-- The runs of a conditional are those of its condition and those of its branches. -/
theorem filter_spans_conditional (o : Options) (offset : Nat)
    (condition branches : List Construct) :
    ((conditional condition branches).spans o offset).filter Span.isLiteral =
      (spansAll o (offset + 3) condition).filter Span.isLiteral ++
        (spansAll o (offset + 4 + widthAll condition) branches).filter Span.isLiteral := by
  rw [spans, List.filter_append, List.filter_append,
    List.filter_cons_of_neg (ne_true_of_eq_false (isLiteral_choice ..))]
  exact List.append_nil _

/-- The literals of a conditional are those of its condition and those of its branches. -/
theorem literalsAll_nodes_conditional (o : Options) (offset : Nat)
    (condition branches : List Construct) :
    Node.literalsAll ((conditional condition branches).nodes o offset) =
      Node.literalsAll (nodesAll o (offset + 3) condition) ++
        Node.literalsAll (nodesAll o (offset + 4 + widthAll condition) branches) := by
  rw [nodes_conditional, Node.literalsAll_singleton, Node.literals_group,
    Node.literalsAll_singleton, choiceNode, Node.literals_choose]

/-- A run says the literals that it is made of. -/
theorem says_run {skipping : Bool} {pattern : Text} {offset : Nat} {first : Literal}
    {more : List Literal} {after : List Lexeme}
    (h : Lexeme.lex skipping (pattern.drop offset) = (run first more).lexemes ++ after) :
    Span.Says skipping pattern
      ⟨.literal, offset, offset + first.extra + Literal.widthAll more,
        Literal.textAll (first :: more)⟩ ((first :: more).map Literal.text) := by
  refine ⟨?_, rfl⟩
  have hwidth : offset + first.extra + Literal.widthAll more + 1 - offset =
      Literal.widthAll (first :: more) := by
    rw [Literal.widthAll_cons]
    omega
  show Text.WritesLiterals skipping
    ((pattern.drop offset).take (offset + first.extra + Literal.widthAll more + 1 - offset)) _
  rw [hwidth]
  apply Lexeme.writesLiterals_of_lex_eq
  exact h

mutual

/-- The runs of a construct say the literals of its nodes. -/
theorem sayAll_spans {skipping : Bool} {pattern : Text} (o : Options) (offset : Nat)
    {after : List Lexeme} :
    (c : Construct) → c.Proper →
      Lexeme.lex skipping (pattern.drop offset) = c.lexemes ++ after →
      Span.SayAll skipping pattern ((c.spans o offset).filter Span.isLiteral)
        (Node.literalsAll (c.nodes o offset))
  | .skipped _ _, _, _ | .bar, _, _ | .bare _ _, _, _ => Span.sayAll_nil
  | .run first more, _, h => by
    rw [nodes, Node.literalsAll_map_node]
    exact Span.sayAll_singleton (says_run h)
  | .atom a extra, ha, _ => by
    have hliteral : (Span.ofNode (.atom a) offset (offset + extra)).isLiteral = false :=
      beq_eq_false_iff_ne.2 ha
    rw [spans, nodes, Node.literalsAll_singleton, Node.literals_atom ha,
      List.filter_cons_of_neg (ne_true_of_eq_false hliteral)]
    exact Span.sayAll_nil
  | .group heading extra body, hbody, h => by
    rw [lexemes, List.cons_append, List.append_assoc] at h
    have hinside := Lexeme.lex_drop_add [opening heading extra] h
    rw [filter_spans_group, nodes_group, Node.literalsAll_singleton, groupNode,
      Node.literals_group]
    exact sayAll_spansAll o (offset + (extra + 1)) body hbody hinside
  | .conditional condition branches, ⟨hcondition, hbranches, _⟩, h => by
    rw [lexemes, List.cons_append, List.append_assoc, List.cons_append, List.append_assoc] at h
    -- the condition is read behind the opener, the branches behind the parenthesis after it
    have hinside := Lexeme.lex_drop_add [openingCondition] h
    have hbehind := Lexeme.lex_drop_add [closing] (Lexeme.lex_drop_add _ hinside)
    have hoffset : offset + 3 + widthAll condition + 1 = offset + 4 + widthAll condition := by
      omega
    rw [filter_spans_conditional, literalsAll_nodes_conditional, ← hoffset]
    apply Span.SayAll.append
    · exact sayAll_spansAll o _ condition hcondition hinside
    · exact sayAll_spansAll o _ branches hbranches hbehind

/-- The runs of constructs say the literals of their nodes. -/
theorem sayAll_spansAll {skipping : Bool} {pattern : Text} (o : Options) (offset : Nat)
    {after : List Lexeme} :
    (cs : List Construct) → ProperAll cs →
      Lexeme.lex skipping (pattern.drop offset) = lexemesAll cs ++ after →
      Span.SayAll skipping pattern ((spansAll o offset cs).filter Span.isLiteral)
        (Node.literalsAll (nodesAll o offset cs))
  | [], _, _ => Span.sayAll_nil
  | c :: cs, ⟨hc, _, hcs⟩, h => by
    rw [lexemesAll_cons, List.append_assoc] at h
    rw [spansAll_cons, List.filter_append, nodesAll_cons, Node.literalsAll_append]
    apply Span.SayAll.append
    · exact sayAll_spans o offset c hc h
    · exact sayAll_spansAll o (offset + c.width) cs hcs (Lexeme.lex_drop_add _ h)

end

end Construct

/-! ## Runs of an explanation -/

/-- The runs of an explanation are as long as they can be, and they say just the literals of its
tree. -/
structure Explanation.LiteralRuns (e : Explanation) (pattern : Text) (o : Options) : Prop where
  /-- A run covers at least one glyph, and only glyphs of the pattern. -/
  bounds : ∀ s ∈ e.index.entries, s.isLiteral → s.start ≤ s.stop ∧ s.stop < pattern.length
  /-- No run starts where another one ends. -/
  apart : ∀ s ∈ e.index.entries, ∀ t ∈ e.index.entries, s.Apart t
  /-- No other entry lies inside a run. -/
  innermost : e.index.entries.Pairwise fun s t =>
    (s.isLiteral → ¬t.Within s) ∧ (t.isLiteral → ¬s.Within t)
  /-- The glyphs of the runs write the literals of the tree, in order, and each run says its own. -/
  told : Span.SayAll o.ignoreWhitespace pattern (e.index.entries.filter Span.isLiteral)
    (Node.literalsAll e.tree)

/-- Of two entries of which one precedes the other, a run is not around the other one. -/
theorem Span.Precedes.not_within {s t : Span} (h : s.Precedes t) (hs : s.start ≤ s.stop)
    (ht : t.start ≤ t.stop) : ¬t.Within s ∧ (t.isLiteral → ¬s.Within t) := by
  obtain ⟨hstop, hplace⟩ := h
  constructor
  · rintro ⟨hstart, hle⟩
    omega
  · rintro hliteral ⟨hstart, -⟩
    rcases hplace with hlt | ⟨-, hgroup | hchoice⟩
    · omega
    -- a run holds no other constructs
    · rw [Span.isLiteral, hgroup] at hliteral
      cases hliteral
    · rw [Span.isLiteral, hchoice] at hliteral
      cases hliteral

open Construct

/-- The runs of every pattern that can be explained are as long as they can be, and they say just
the literals of its tree. -/
theorem literalRuns_of_explain {pattern : Text} {o : Options} {e : Explanation}
    (h : explain pattern o = .ok e) : e.LiteralRuns pattern o := by
  obtain ⟨cs, hcs, rfl⟩ := explain_eq_ok_iff.1 h
  have hwell := hcs.wellFormed_index
  have hprecedes := pairwise_spansAll o 0 cs
  have hapart := pairwise_apart_spansAll o 0 cs hcs.proper
  rw [← entries_explanation o hcs.proper] at hprecedes hapart
  refine ⟨?_, ?_, ?_, ?_⟩
  · intro s hs _
    exact hwell.bounds s hs
  -- a run is apart from itself, and from any that ends before it
  · intro s hs t ht
    refine List.Pairwise.forall_of_forall_of_flip (R := Span.Apart) ?_ hapart ?_ hs ht
    · intro s hs _ _
      have hle := (hwell.bounds s hs).1
      omega
    · apply hwell.stops.imp_of_mem
      intro s t hs _ hstop _ _
      have hle := (hwell.bounds s hs).1
      omega
  · apply hprecedes.imp_of_mem
    intro s t hs ht hst
    obtain ⟨hts, hst⟩ := hst.not_within (hwell.bounds s hs).1 (hwell.bounds t ht).1
    exact ⟨fun _ => hts, hst⟩
  · rw [entries_explanation o hcs.proper]
    apply sayAll_spansAll o 0 cs hcs.proper
    rw [List.drop_zero, ← hcs.lexemesAll_eq, List.append_nil]

/-- A run with an escaped space stands before a group, and another one in the group. -/
theorem literalRuns_of_explain_group :
    ∃ e, explain ['a', '\\', ' ', '#', '(', 'b', ')'] {} = .ok e ∧
      e.LiteralRuns ['a', '\\', ' ', '#', '(', 'b', ')'] {} ∧
      (e.index.entries.filter Span.isLiteral).map (fun s => (s.start, s.stop, s.text)) =
        [(0, 3, 'a' :: spaceMark ++ ['#']), (5, 5, ['b'])] := by
  obtain ⟨e, he⟩ : ∃ e, explain ['a', '\\', ' ', '#', '(', 'b', ')'] {} = .ok e := ⟨_, rfl⟩
  refine ⟨e, he, literalRuns_of_explain he, ?_⟩
  cases he
  rfl

end RegexGloss
