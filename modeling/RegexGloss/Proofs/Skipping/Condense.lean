import RegexGloss.Proofs.Construct.Bounds
import RegexGloss.Proofs.Construct.Map
import RegexGloss.Proofs.Index.Occurs
import RegexGloss.Proofs.Index.Postorder
import RegexGloss.Proofs.Token.Echo

/-!
# One space for all that is skipped

Where blanks and comments are skipped, a single space can stand for any number of them that follow
each other (`Text.condense`). It separates the glyphs on both sides just as they did, and interrupts
literals just as they did. So nothing changes in an explanation apart from places in the pattern.
Malformed quantifiers are left out, because they take up glyphs without regard to blanks.

Main statement: `explain_condense`.
-/

namespace RegexGloss

open Text

/-! ## Tokens -/

namespace Lexeme

/-- Whether a token is a blank or a comment. -/
def isSkipped (l : Lexeme) : Bool := l.token == .blank || l.token == .comment

/-- The glyphs of tokens, with one space for tokens that are skipped one after the other. `inside`
says whether the token before them was skipped. -/
def condenseText (inside : Bool) : List Lexeme → Text → Text
  | [], _ => []
  | l :: ls, t =>
    if l.isSkipped then
      (if inside then [] else [' ']) ++ condenseText true ls (t.drop l.width)
    else
      t.take l.width ++ condenseText false ls (t.drop l.width)

/-- Tokens with one blank in place of tokens that are skipped one after the other. -/
def condense (inside : Bool) : List Lexeme → List Lexeme
  | [] => []
  | l :: ls =>
    if l.isSkipped then
      (if inside then [] else [⟨.blank, 1⟩]) ++ condense true ls
    else
      l :: condense false ls

theorem condense_cons {inside : Bool} {l : Lexeme} (h : l.isSkipped = false) (ls : List Lexeme) :
    condense inside (l :: ls) = l :: condense false ls := by
  rw [condense, if_neg (by simp [h])]

/-- Literals stay as they are. -/
theorem condense_literals (inside : Bool) (first : Literal) (more : List Literal)
    (ls : List Lexeme) :
    condense inside ((first :: more).map Literal.lexeme ++ ls) =
      (first :: more).map Literal.lexeme ++ condense false ls := by
  induction more generalizing inside first with
  | nil => exact condense_cons rfl ls
  | cons second more ih =>
    rw [List.map_cons, List.cons_append, condense_cons rfl, ih, List.cons_append]

/-- A token can stand in front of other blanks and comments than before. -/
def Condensable (l : Lexeme) : Prop :=
  l.token.isFault = false ∧ l.token ≠ .atom (.quantifier .unterminated)

end Lexeme

/-- A text with a single space for each block of blanks and comments that are skipped. -/
def Text.condense (t : Text) : Text := Lexeme.condenseText false (Lexeme.lex true t) t

namespace Lexeme

/-- A text echoes the one that it is condensed from. -/
theorem echoes_condense (t : Text) : t.condense.Echoes t := by
  match t with
  | [] => exact fun w _ hw => hw
  | c :: t =>
    have ih := echoes_condense (t.drop (Token.read true c t).2)
    rw [Text.condense, lex_cons, condenseText]
    split
    · -- what is skipped starts with a space here, so nothing is in front of it
      rintro w hw ⟨rest, hrest⟩
      cases w with
      | nil => exact List.nil_prefix
      | cons a w =>
        obtain ⟨rfl, -⟩ := List.cons.inj hrest
        exact absurd List.mem_cons_self hw
    · have happend := ih.append_left ((c :: t).take ((Token.read true c t).2 + 1))
      have hsplit := List.take_append_drop ((Token.read true c t).2 + 1) (c :: t)
      rw [List.drop_succ_cons] at hsplit
      rwa [hsplit] at happend
termination_by t.length
decreasing_by simp only [List.length_drop, List.length_cons]; omega

/-- A token that is not skipped is read from its glyphs with a condensed text behind them. -/
theorem lex_append_condense {c : Char} {t : Text} {token : Token} {width : Nat}
    (hread : Token.read true c t = (token, width)) (hl : Condensable ⟨token, width + 1⟩)
    (hcomment : token ≠ .comment) :
    lex true (c :: (t.take width ++ Text.condense (t.drop width))) =
      ⟨token, width + 1⟩ :: lex true (Text.condense (t.drop width)) := by
  have hlength : (t.take width).length = width := by
    have hle := Token.read_snd_le true c t
    rw [hread] at hle
    exact List.length_take_of_le hle
  rw [← List.take_append_drop width t] at hread
  have hnil : t.drop width = [] → Text.condense (t.drop width) = [] := by
    intro hnil
    rw [hnil]
    rfl
  have hcondensed := Token.read_of_echoes (hread.trans (by rw [hlength])) hl.1 hcomment hl.2
    (echoes_condense (t.drop width)) hnil
  rw [lex_cons, hcondensed, hlength, List.drop_left' hlength]

/-- The tokens of a condensed text are the condensed tokens. -/
theorem lex_condenseText (inside : Bool) (t : Text) (h : ∀ l ∈ lex true t, l.Condensable) :
    lex true (condenseText inside (lex true t) t) = condense inside (lex true t) := by
  match t with
  | [] => rfl
  | c :: t =>
    cases hread : Token.read true c t with | mk token width
    rw [lex_cons, hread] at h ⊢
    have hrest := fun inside => lex_condenseText inside (t.drop width)
      fun l hl => h l (List.mem_cons_of_mem _ hl)
    rw [condenseText, condense, List.drop_succ_cons, List.take_succ_cons]
    split
    · -- one space is a blank whatever stood here, and no more than one is needed
      cases inside with
      | true => exact hrest true
      | false =>
        have hspace (u : Text) : lex true (' ' :: u) = ⟨.blank, 1⟩ :: lex true u := rfl
        exact (hspace _).trans (congrArg _ (hrest true))
    · rename_i hskip
      have hcomment : token ≠ .comment := by
        rintro rfl
        exact hskip rfl
      have hcondensed := lex_append_condense hread (h _ List.mem_cons_self) hcomment
      exact hcondensed.trans (congrArg _ (hrest false))
termination_by t.length
decreasing_by simp only [List.length_drop, List.length_cons]; omega

end Lexeme

namespace Node

/-- A node with all its bars at the same place. -/
def unplace : Node → Node := map id fun _ => 0

/-- Nodes with all their bars at the same place. -/
def unplaceAll : List Node → List Node := mapAll id fun _ => 0

theorem unplaceAll_append (ms ns : List Node) :
    unplaceAll (ms ++ ns) = unplaceAll ms ++ unplaceAll ns :=
  mapAll_append ..

/-- Neither the kind of a node nor its description tells where its bars are. -/
theorem label_of_unplace_eq {m n : Node} (h : m.unplace = n.unplace) : m.label = n.label := by
  have hlabel (n : Node) : n.unplace.label = n.label := by
    rw [label, label, unplace, kind_map, describe_map_id]
  rw [← hlabel m, h, hlabel]

end Node

/-! ## Constructs -/

namespace Construct

mutual

/-- A construct with a single space for each block of blanks and comments inside it. -/
def condense : Construct → Construct
  | skipped comment extra => skipped comment extra
  | run first more => run first more
  | atom a extra => atom a extra
  | bar => bar
  | bare kind extra => bare kind extra
  | group heading extra body => group heading extra (condenseAll false body)
  | conditional condition branches =>
    conditional (condenseAll false condition) (condenseAll false branches)
termination_by structural c => c

/-- Constructs with a single space for each block of blanks and comments. `inside` says whether the
construct before them was skipped. -/
def condenseAll (inside : Bool) : List Construct → List Construct
  | [] => []
  | c :: cs =>
    if c.isSkipped then
      (if inside then [] else [skipped false 0]) ++ condenseAll true cs
    else
      condense c :: condenseAll false cs
termination_by structural cs => cs

end

theorem condenseAll_skipped (inside : Bool) {c : Construct} (h : c.isSkipped = true)
    (cs : List Construct) :
    condenseAll inside (c :: cs) =
      (if inside then [] else [skipped false 0]) ++ condenseAll true cs := by
  rw [condenseAll, if_pos h]

theorem condenseAll_cons (inside : Bool) {c : Construct} (h : c.isSkipped = false)
    (cs : List Construct) :
    condenseAll inside (c :: cs) = condense c :: condenseAll false cs := by
  rw [condenseAll, if_neg (by simp [h])]

theorem exists_eq_skipped {c : Construct} (h : c.isSkipped = true) :
    ∃ comment extra, c = skipped comment extra := by
  cases c with
  | skipped comment extra => exact ⟨comment, extra, rfl⟩
  | _ => cases h

/-- Condensing does not turn a construct into one of another form. -/
theorem isRun_condense (c : Construct) : (condense c).isRun = c.isRun := by
  cases c <;> rfl

theorem isBar_condense (c : Construct) : (condense c).isBar = c.isBar := by
  cases c <;> rfl

mutual

/-- The tokens of a condensed construct are its tokens, condensed. -/
theorem condense_lexemes (inside : Bool) :
    (c : Construct) → c.isSkipped = false → (ls : List Lexeme) →
      Lexeme.condense inside (c.lexemes ++ ls) = (condense c).lexemes ++ Lexeme.condense false ls
  | .skipped _ _, h, _ => by cases h
  | .run first more, _, ls => Lexeme.condense_literals inside first more ls
  | .atom _ _, _, _ | .bar, _, _ | .bare _ _, _, _ => rfl
  | .group heading extra body, _, ls => by
    have hopening : (opening heading extra).isSkipped = false := by cases heading <;> rfl
    have hbody := condense_lexemesAll false body (closing :: ls) fun _ => rfl
    have hclosing : Lexeme.condense false (closing :: ls) = closing :: Lexeme.condense false ls :=
      Lexeme.condense_cons rfl ls
    rw [hclosing] at hbody
    simp only [lexemes, condense, List.cons_append, List.append_assoc, List.nil_append,
      Lexeme.condense_cons hopening, hbody]
  | .conditional condition branches, _, ls => by
    have hopening : openingCondition.isSkipped = false := rfl
    have hclosing (ls : List Lexeme) :
        Lexeme.condense false (closing :: ls) = closing :: Lexeme.condense false ls :=
      Lexeme.condense_cons rfl ls
    have hcondition (ls : List Lexeme) :=
      condense_lexemesAll false condition (closing :: ls) fun _ => rfl
    have hbranches := condense_lexemesAll false branches (closing :: ls) fun _ => rfl
    simp only [hclosing] at hcondition hbranches
    simp only [lexemes, condense, List.cons_append, List.append_assoc, List.nil_append,
      Lexeme.condense_cons hopening, hcondition, hbranches]

/-- The tokens of condensed constructs are their tokens, condensed. -/
theorem condense_lexemesAll (inside : Bool) :
    (cs : List Construct) → (ls : List Lexeme) →
      (∀ b, Lexeme.condense b ls = Lexeme.condense false ls) →
      Lexeme.condense inside (lexemesAll cs ++ ls) =
        lexemesAll (condenseAll inside cs) ++ Lexeme.condense false ls
  | [], ls, hls => hls inside
  | c :: cs, ls, hls => by
    rw [lexemesAll_cons, List.append_assoc]
    cases hskip : c.isSkipped with
    | true =>
      obtain ⟨comment, extra, rfl⟩ := exists_eq_skipped hskip
      have hrest := condense_lexemesAll true cs ls hls
      have hlexeme : (⟨if comment then .comment else .blank, extra + 1⟩ : Lexeme).isSkipped =
          true := by cases comment <;> rfl
      rw [lexemes, List.singleton_append, Lexeme.condense, if_pos hlexeme,
        condenseAll_skipped inside hskip, lexemesAll_append, List.append_assoc, hrest]
      cases inside <;> rfl
    | false =>
      rw [condense_lexemes inside c hskip, condenseAll_cons inside hskip, lexemesAll_cons,
        List.append_assoc, condense_lexemesAll false cs ls hls]

end

/-! ### Well-formedness -/

theorem startsNoRun_condenseAll {cs : List Construct} (h : StartsNoRun cs) :
    StartsNoRun (condenseAll false cs) := by
  cases cs with
  | nil => exact h
  | cons c cs =>
    cases hskip : c.isSkipped with
    | true =>
      rw [condenseAll_skipped false hskip]
      rintro d hd
      cases hd
      rfl
    | false =>
      rw [condenseAll_cons false hskip]
      rintro d hd
      cases hd
      rw [isRun_condense]
      exact h c rfl

/-- The bars stay, because none is skipped. -/
theorem countP_isBar_condenseAll (inside : Bool) (cs : List Construct) :
    (condenseAll inside cs).countP isBar = cs.countP isBar := by
  induction cs generalizing inside with
  | nil => rfl
  | cons c cs ih =>
    cases hskip : c.isSkipped with
    | true =>
      have hbar : c.isBar = false := by
        cases c with
        | bar => cases hskip
        | _ => rfl
      rw [condenseAll_skipped inside hskip, List.countP_append, ih, List.countP_cons, hbar]
      cases inside <;> simp [isBar]
    | false => rw [condenseAll_cons inside hskip, List.countP_cons, List.countP_cons, ih,
        isBar_condense]

mutual

theorem proper_condense : (c : Construct) → c.Proper → (condense c).Proper
  | .skipped _ _, h | .run _ _, h | .atom _ _, h | .bar, h | .bare _ _, h => h
  | .group _ _ body, h => properAll_condenseAll false body h
  | .conditional condition branches, h => by
    obtain ⟨hcondition, hbranches, hbars⟩ := h
    exact ⟨properAll_condenseAll false condition hcondition,
      properAll_condenseAll false branches hbranches, by rwa [countP_isBar_condenseAll]⟩

/-- Proper constructs stay proper. Literals that are apart stay apart. -/
theorem properAll_condenseAll (inside : Bool) :
    (cs : List Construct) → ProperAll cs → ProperAll (condenseAll inside cs)
  | [], _ => trivial
  | c :: cs, h => by
    obtain ⟨hc, hrun, hcs⟩ := h
    cases hskip : c.isSkipped with
    | true =>
      have hrest := properAll_condenseAll true cs hcs
      rw [condenseAll_skipped inside hskip]
      cases inside with
      | true => exact hrest
      | false => exact ⟨trivial, nofun, hrest⟩
    | false =>
      rw [condenseAll_cons inside hskip]
      refine ⟨proper_condense c hc, fun hcondense => ?_, properAll_condenseAll false cs hcs⟩
      rw [isRun_condense] at hcondense
      exact startsNoRun_condenseAll (hrun hcondense)

end

/-! ### Trees and entries -/

mutual

/-- The nodes of a condensed construct differ in the places of bars only. -/
theorem unplaceAll_nodes_condense (o : Options) (offset place : Nat) :
    (c : Construct) → c.isSkipped = false →
      Node.unplaceAll ((condense c).nodes o place) = Node.unplaceAll (c.nodes o offset)
  | .skipped _ _, h => by cases h
  | .run _ _, _ | .atom _ _, _ | .bar, _ | .bare _ _, _ => rfl
  | .group heading extra body, _ => by
    have hbody := unplaceAll_nodesAll_condenseAll o false (offset + (extra + 1))
      (place + (extra + 1)) body
    rw [condense, nodes_group, nodes_group, groupNode, groupNode]
    exact congrArg (fun ns => [Node.group (heading.getD (Assembly.plainKind o)) ns]) hbody
  | .conditional condition branches, _ => by
    have hcondition := unplaceAll_nodesAll_condenseAll o false (offset + 3) (place + 3) condition
    have hbranches := unplaceAll_nodesAll_condenseAll o false (offset + 4 + widthAll condition)
      (place + 4 + widthAll (condenseAll false condition)) branches
    have hchoice : (choiceNode o place (condenseAll false condition)
          (condenseAll false branches)).unplace =
        (choiceNode o offset condition branches).unplace := by
      rw [choiceNode, choiceNode, Node.unplace, Node.map_choose, Node.map_choose]
      exact congrArg₂ Node.choose hcondition hbranches
    rw [condense, nodes_conditional, nodes_conditional]
    exact congrArg (fun n => [Node.group .conditional [n]]) hchoice

/-- The nodes of condensed constructs differ in the places of bars only. -/
theorem unplaceAll_nodesAll_condenseAll (o : Options) (inside : Bool) (offset place : Nat) :
    (cs : List Construct) →
      Node.unplaceAll (nodesAll o place (condenseAll inside cs)) =
        Node.unplaceAll (nodesAll o offset cs)
  | [] => rfl
  | c :: cs => by
    rw [nodesAll_cons, Node.unplaceAll_append]
    cases hskip : c.isSkipped with
    | true =>
      obtain ⟨comment, extra, rfl⟩ := exists_eq_skipped hskip
      have hrest (inside : Bool) (place : Nat) := unplaceAll_nodesAll_condenseAll o inside
        (offset + (skipped comment extra).width) place cs
      rw [condenseAll_skipped inside hskip]
      cases inside with
      | true => exact hrest true place
      | false => exact hrest true (place + 1)
    | false =>
      rw [condenseAll_cons inside hskip, nodesAll_cons, Node.unplaceAll_append,
        unplaceAll_nodes_condense o offset place c hskip,
        unplaceAll_nodesAll_condenseAll o false (offset + c.width) _ cs]

end

mutual

/-- The entries of a condensed construct have the same kinds and texts. -/
theorem label_spans_condense (o : Options) (offset place : Nat) :
    (c : Construct) → c.isSkipped = false →
      ((condense c).spans o place).map Span.label = (c.spans o offset).map Span.label
  | .skipped _ _, h => by cases h
  | .run _ _, _ | .atom _ _, _ | .bar, _ | .bare _ _, _ => rfl
  | .group heading extra body, h => by
    have hbody := label_spansAll_condenseAll o false (offset + (extra + 1)) (place + (extra + 1))
      body
    have hnodes := unplaceAll_nodes_condense o offset place (.group heading extra body) h
    have hgroup := Node.label_of_unplace_eq (List.cons.inj hnodes).1
    rw [condense, spans, spans, List.map_append, List.map_append, hbody]
    exact congrArg (fun item => _ ++ [item]) hgroup
  | .conditional condition branches, h => by
    have hcondition := label_spansAll_condenseAll o false (offset + 3) (place + 3) condition
    have hbranches := label_spansAll_condenseAll o false (offset + 4 + widthAll condition)
      (place + 4 + widthAll (condenseAll false condition)) branches
    have hnodes := unplaceAll_nodes_condense o offset place (.conditional condition branches) h
    have hgroup := Node.label_of_unplace_eq (List.cons.inj hnodes).1
    -- the choice is the only node inside the node of its conditional
    have hchoice := Node.label_of_unplace_eq
      (List.cons.inj (Node.group.inj (List.cons.inj hnodes).1).2).1
    rw [condense, spans, spans, List.map_append, List.map_append, List.map_append, List.map_append,
      hcondition, hbranches]
    exact congrArg₂ (fun choice group => _ ++ _ ++ [choice, group]) hchoice hgroup

/-- The entries of condensed constructs have the same kinds and texts. -/
theorem label_spansAll_condenseAll (o : Options) (inside : Bool) (offset place : Nat) :
    (cs : List Construct) →
      (spansAll o place (condenseAll inside cs)).map Span.label =
        (spansAll o offset cs).map Span.label
  | [] => rfl
  | c :: cs => by
    rw [spansAll_cons, List.map_append]
    cases hskip : c.isSkipped with
    | true =>
      obtain ⟨comment, extra, rfl⟩ := exists_eq_skipped hskip
      have hrest (inside : Bool) (place : Nat) := label_spansAll_condenseAll o inside
        (offset + (skipped comment extra).width) place cs
      rw [condenseAll_skipped inside hskip]
      cases inside with
      | true => exact hrest true place
      | false => exact hrest true (place + 1)
    | false =>
      rw [condenseAll_cons inside hskip, spansAll_cons, List.map_append,
        label_spans_condense o offset place c hskip,
        label_spansAll_condenseAll o false (offset + c.width) _ cs]

end

end Construct

open Construct

/-! ## Explanations -/

/-- The tokens of constructs can be condensed, unless there is a malformed quantifier in their
tree. -/
theorem Construct.Forms.condensable {cs : List Construct} {o : Options} {pattern : Text}
    (h : Forms cs o pattern)
    (hquantifier : ¬Node.Occurs (.atom (.quantifier .unterminated)) (nodesAll o 0 cs)) :
    ∀ l ∈ Lexeme.lex o.ignoreWhitespace pattern, l.Condensable := by
  intro l hl
  rw [← h.lexemesAll_eq] at hl
  refine ⟨Assembly.isFault_of_run (Assembly.run_lexemesAll o { offset := 0 } cs h.proper) l hl, ?_⟩
  rintro heq
  obtain ⟨token, width⟩ := l
  subst heq
  exact hquantifier (occurs_of_mem_lexemesAll o 0 cs hl)

/-- Blanks and comments that are skipped can be replaced by one space for each block of them, if no
quantifier is malformed: the tree stays the same up to the positions of bars, the entries have the
same kinds and texts, and the explanation has the same text. -/
theorem explain_condense {pattern : Text} {o : Options} {e : Explanation}
    (hskipping : o.ignoreWhitespace = true) (h : explain pattern o = .ok e)
    (hquantifier : ¬Node.Occurs (.atom (.quantifier .unterminated)) e.tree) :
    ∃ d, explain pattern.condense o = .ok d ∧
      Node.unplaceAll d.tree = Node.unplaceAll e.tree ∧
      d.index.entries.map Span.label = e.index.entries.map Span.label ∧ d.text = e.text := by
  obtain ⟨cs, hcs, rfl⟩ := explain_eq_ok_iff.1 h
  have hcondensable := hcs.condensable hquantifier
  have hlexemes := hcs.lexemesAll_eq
  rw [hskipping] at hcondensable hlexemes
  have hforms : Forms (condenseAll false cs) o pattern.condense := by
    refine ⟨properAll_condenseAll false cs hcs.proper, ?_⟩
    have htokens := condense_lexemesAll false cs [] fun _ => rfl
    rw [List.append_nil, hlexemes] at htokens
    rw [hskipping, Text.condense, Lexeme.lex_condenseText false pattern hcondensable, htokens]
    exact (List.append_nil _).symm
  have htree := unplaceAll_nodesAll_condenseAll o false 0 0 cs
  refine ⟨_, explain_eq_ok_iff.2 ⟨_, hforms, rfl⟩, htree, ?_, ?_⟩
  · rw [entries_explanation o hforms.proper, entries_explanation o hcs.proper]
    exact label_spansAll_condenseAll o false 0 0 cs
  · have htext (ns : List Node) : Node.renderAll 0 (Node.unplaceAll ns) = Node.renderAll 0 ns :=
      Node.renderFrom_mapAll_id ..
    show Node.renderAll 0 (nodesAll o 0 (condenseAll false cs)) = Node.renderAll 0 (nodesAll o 0 cs)
    rw [← htext, htree, htext]

/-- What a comment holds does not matter. -/
theorem explain_condense_comment :
    ∃ e d, explain ['a', ' ', '#', ')', '[', '(', '\n', '|', 'b']
        { ignoreWhitespace := true } = .ok e ∧
      explain ['a', ' ', '|', 'b'] { ignoreWhitespace := true } = .ok d ∧
      Node.unplaceAll d.tree = Node.unplaceAll e.tree ∧ d.text = e.text := by
  obtain ⟨e, he, htree⟩ : ∃ e, explain ['a', ' ', '#', ')', '[', '(', '\n', '|', 'b']
      { ignoreWhitespace := true } = .ok e ∧
        e.tree = [.atom (.literal ['a']), .bar 7, .atom (.literal ['b'])] := ⟨_, rfl, rfl⟩
  have hquantifier : ¬Node.Occurs (.atom (.quantifier .unterminated)) e.tree := by
    rw [htree]
    intro h
    cases h with
    | here h => exact absurd h (by decide)
    | inside hm hbody h =>
      -- there are no groups here
      have hbodies : ∀ m ∈ [Node.atom (.literal ['a']), .bar 7, .atom (.literal ['b'])],
          m.bodies = [] := by decide
      rw [hbodies _ hm] at hbody
      cases hbody
  obtain ⟨d, hd, hsame, -, htext⟩ := explain_condense rfl he hquantifier
  exact ⟨e, d, he, hd, hsame, htext⟩

end RegexGloss
