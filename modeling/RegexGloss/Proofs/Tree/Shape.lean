import RegexGloss.Proofs.Construct.Settled
import RegexGloss.Proofs.Token.Valid

/-!
# The shape of trees

The tree of an explanation is not any list of nodes. Choices are found in conditionals only and hold
no bars outside of groups, everything else has a name, counts or settings as its kind needs, and
only the last node of a pattern may be a class without its bracket (`Node.Sound`). The bars that are
left in a tree stand at bars of the pattern, in the same order
(`Construct.positions_nodesAll_sublist`).

Main statement: `shaped_of_explain`.
-/

namespace RegexGloss

/-- A token can stand inside a group: it is sound and no class without its bracket. -/
def Token.SoundInside (token : Token) : Prop :=
  token.Sound ∧ token ≠ .atom (.charClass .unterminated)

/-- With more tokens behind it, a token is no class without its bracket. -/
theorem Lexeme.soundInside_of_lex_eq {skipping : Bool} {t : Text} {before after : List Lexeme}
    {l : Lexeme} (h : lex skipping t = before ++ l :: after) (hafter : after ≠ []) :
    l.token.SoundInside := by
  refine ⟨sound_of_mem_lex (by rw [h]; simp), fun hclass => hafter ?_⟩
  obtain ⟨token, width⟩ := l
  subst hclass
  exact eq_nil_of_unterminated h

namespace Node

/-! ## Sound trees -/

/-- Which bodies the groups of a tree have: that of a conditional is a choice, and no other body
holds one. -/
def Holds (body : List Node) : GroupKind → Prop
  | .conditional => ∃ n, body = [n] ∧ n.kind = .conditional
  | _ => NoChoice body

mutual

/-- A node has the shape of those that are read inside a pattern. Only settings have no body, no
bars are left in the branches of a choice, and every class has its bracket. -/
def Sound : Node → Prop
  | atom a => a.Sound ∧ a ≠ .charClass .unterminated
  | bar _ => True
  | group kind body => kind.Valid ∧ Holds body kind ∧ SoundAll body
  | bare kind => ∃ list, kind = .settings list ∧ Setting.ValidAll list
  | ifThen condition yes =>
    (NoChoice condition ∧ SoundAll condition) ∧ (NoChoice yes ∧ bars yes = 0 ∧ SoundAll yes)
  | ifThenElse condition yes no =>
    (NoChoice condition ∧ SoundAll condition) ∧ (NoChoice yes ∧ bars yes = 0 ∧ SoundAll yes) ∧
      (NoChoice no ∧ bars no = 0 ∧ SoundAll no)
termination_by structural n => n

/-- All nodes have the shape of those that are read inside a pattern. -/
def SoundAll : List Node → Prop
  | [] => True
  | n :: ns => Sound n ∧ SoundAll ns
termination_by structural ns => ns

end

theorem holds_of_ne {kind : GroupKind} (hkind : kind ≠ .conditional) {body : List Node}
    (h : NoChoice body) : Holds body kind := by
  cases kind with
  | conditional => exact absurd rfl hkind
  | _ => exact h

theorem noChoice_append (ms ns : List Node) :
    NoChoice (ms ++ ns) ↔ NoChoice ms ∧ NoChoice ns :=
  List.forall_mem_append

theorem soundAll_iff (ns : List Node) : SoundAll ns ↔ ∀ n ∈ ns, n.Sound := by
  induction ns with
  | nil => simp [SoundAll]
  | cons n ns ih => rw [SoundAll, ih, List.forall_mem_cons]

theorem soundAll_append (ms ns : List Node) :
    SoundAll (ms ++ ns) ↔ SoundAll ms ∧ SoundAll ns := by
  rw [soundAll_iff, soundAll_iff, soundAll_iff, List.forall_mem_append]

/-- A choice between branches that at most one bar separates is sound if these are. -/
theorem sound_choose {condition branches : List Node} (hcondition : NoChoice condition)
    (hbranches : NoChoice branches) (hbars : bars branches ≤ 1) (hc : SoundAll condition)
    (hb : SoundAll branches) : (choose condition branches).Sound := by
  rcases exists_split_bars branches with ⟨-, hnone⟩ | ⟨pos, no, -, hsplit, hcount⟩
  · rw [choose_of_bars_eq_zero condition hnone]
    exact ⟨⟨hcondition, hc⟩, hbranches, hnone, hb⟩
  · have hyes := bars_takeWhile branches
    rw [hsplit] at hbranches hb
    obtain ⟨hsoundYes, -, hsoundNo⟩ := (soundAll_append _ _).1 hb
    rw [hsplit, choose_append_bar condition hyes]
    refine ⟨⟨hcondition, hc⟩, ⟨?_, hyes, hsoundYes⟩, ?_, by omega, hsoundNo⟩
    · exact fun n hn => hbranches n (List.mem_append_left _ hn)
    · exact fun n hn => hbranches n (List.mem_append_right _ (List.mem_cons_of_mem _ hn))

/-! ## Bars of a tree -/

mutual

/-- The positions of the bars of a node, at any depth and in the order of the pattern. -/
def positions : Node → List Nat
  | bar pos => [pos]
  | atom _ | bare _ => []
  | group _ body => positionsAll body
  | ifThen condition yes => positionsAll condition ++ positionsAll yes
  | ifThenElse condition yes no => positionsAll condition ++ positionsAll yes ++ positionsAll no
termination_by structural n => n

/-- The positions of the bars of nodes, at any depth and in the order of the pattern. -/
def positionsAll : List Node → List Nat
  | [] => []
  | n :: ns => positions n ++ positionsAll ns
termination_by structural ns => ns

end

theorem positionsAll_singleton (n : Node) : positionsAll [n] = positions n :=
  List.append_nil _

theorem positionsAll_append (ms ns : List Node) :
    positionsAll (ms ++ ns) = positionsAll ms ++ positionsAll ns := by
  induction ms with
  | nil => rfl
  | cons m ms ih => rw [List.cons_append, positionsAll, positionsAll, ih, List.append_assoc]

theorem positionsAll_literals (ls : List Literal) : positionsAll (ls.map Literal.node) = [] := by
  induction ls with
  | nil => rfl
  | cons l ls ih => rw [List.map_cons, positionsAll, ih]; rfl

/-- A choice leaves out the bar between its branches. -/
theorem positions_choose_sublist (condition branches : List Node) :
    (positions (choose condition branches)).Sublist
      (positionsAll condition ++ positionsAll branches) := by
  rcases choose_eq_or condition branches with h | ⟨yes, pos, no, rfl, h⟩
  · rw [h]
    exact List.Sublist.refl _
  · rw [h, positions, positionsAll_append, List.append_assoc]
    refine List.Sublist.append_left (List.Sublist.append_left ?_ _) _
    exact List.sublist_cons_self pos (positionsAll no)

end Node

/-! ## Bars among tokens -/

namespace Lexeme

/-- The positions of the bars among tokens that stand from an offset on. -/
def barPositions (offset : Nat) : List Lexeme → List Nat
  | [] => []
  | l :: ls =>
    if l.token = .bar then offset :: barPositions (offset + l.width) ls
    else barPositions (offset + l.width) ls

theorem barPositions_append (offset : Nat) (ls ms : List Lexeme) :
    barPositions offset (ls ++ ms) =
      barPositions offset ls ++ barPositions (offset + (ls.map width).sum) ms := by
  induction ls generalizing offset with
  | nil => rfl
  | cons l ls ih =>
    rw [List.cons_append, barPositions, barPositions, ih, List.map_cons, List.sum_cons,
      Nat.add_assoc]
    split
    · rfl
    · rfl

theorem barPositions_cons_of_ne (offset : Nat) {l : Lexeme} (h : l.token ≠ .bar)
    (ls : List Lexeme) : barPositions offset (l :: ls) = barPositions (offset + l.width) ls :=
  if_neg h

/-- Where a bar is, it stands behind the tokens before it. -/
theorem exists_of_mem_barPositions {offset pos : Nat} {ls : List Lexeme}
    (h : pos ∈ barPositions offset ls) :
    ∃ before l after, ls = before ++ l :: after ∧ l.token = .bar ∧
      pos = offset + (before.map width).sum := by
  induction ls generalizing offset with
  | nil => cases h
  | cons l ls ih =>
    rw [barPositions] at h
    split at h
    · rename_i hbar
      rcases List.mem_cons.1 h with rfl | h
      · exact ⟨[], l, ls, rfl, hbar, rfl⟩
      · obtain ⟨before, m, after, rfl, hm, rfl⟩ := ih h
        exact ⟨l :: before, m, after, rfl, hm, by rw [List.map_cons, List.sum_cons, Nat.add_assoc]⟩
    · obtain ⟨before, m, after, rfl, hm, rfl⟩ := ih h
      exact ⟨l :: before, m, after, rfl, hm, by rw [List.map_cons, List.sum_cons, Nat.add_assoc]⟩

/-- Tokens take up glyphs, so their bars are at different places, in order. -/
theorem pairwise_barPositions (offset : Nat) {ls : List Lexeme} (h : ∀ l ∈ ls, 0 < l.width) :
    (barPositions offset ls).Pairwise (· < ·) := by
  induction ls generalizing offset with
  | nil => exact .nil
  | cons l ls ih =>
    have hwidth := h l List.mem_cons_self
    have hls := ih (offset + l.width) fun m hm => h m (List.mem_cons_of_mem _ hm)
    rw [barPositions]
    split
    · refine .cons (fun pos hpos => ?_) hls
      obtain ⟨before, m, after, -, -, rfl⟩ := exists_of_mem_barPositions hpos
      omega
    · exact hls

end Lexeme

namespace Construct

/-! ## Trees of constructs -/

/-- The kind of a group that is read is no conditional, and has what it needs. -/
theorem valid_heading (o : Options) {heading : Option GroupKind} {extra : Nat}
    (h : (opening heading extra).token.Sound) :
    (heading.getD (Assembly.plainKind o)).Valid ∧
      heading.getD (Assembly.plainKind o) ≠ .conditional := by
  cases heading with
  | none =>
    rw [Option.getD_none, Assembly.plainKind]
    split
    · exact ⟨trivial, by decide⟩
    · exact ⟨trivial, by decide⟩
  | some kind => exact ⟨h.1, h.2.2⟩

mutual

/-- Sound tokens without an open class lead to sound nodes, of which none is a choice. -/
theorem sound_nodes (o : Options) (offset : Nat) :
    (c : Construct) → c.Proper → (∀ l ∈ c.lexemes, l.token.SoundInside) →
      Node.NoChoice (c.nodes o offset) ∧ Node.SoundAll (c.nodes o offset)
  | .skipped _ _, _, _ => ⟨nofun, trivial⟩
  | .run first more, _, h => by
    have hnode (n : Node) (hn : n ∈ (run first more).nodes o offset) :
        n.kind ≠ .conditional ∧ n.Sound := by
      obtain ⟨l, hl, rfl⟩ := List.mem_map.1 hn
      exact ⟨nofun, (h l.lexeme (List.mem_map_of_mem hl)).1, nofun⟩
    rw [Node.soundAll_iff]
    exact ⟨fun n hn => (hnode n hn).1, fun n hn => (hnode n hn).2⟩
  | .atom a extra, _, h => by
    obtain ⟨hsound, hclass⟩ := h ⟨.atom a, extra + 1⟩ List.mem_cons_self
    have ha : (Node.atom a).Sound := ⟨hsound, fun heq => hclass (congrArg Token.atom heq)⟩
    rw [nodes, Node.NoChoice, List.forall_mem_singleton]
    refine ⟨?_, ha, trivial⟩
    cases a <;> exact nofun
  | .bar, _, _ => by
    rw [nodes, Node.NoChoice, List.forall_mem_singleton]
    exact ⟨nofun, trivial, trivial⟩
  | .bare kind extra, _, h => by
    have hbare := (h ⟨.bareGroup kind, extra + 1⟩ List.mem_cons_self).1
    rw [nodes, Node.NoChoice, List.forall_mem_singleton]
    exact ⟨nofun, hbare, trivial⟩
  | .group heading extra body, hproper, h => by
    obtain ⟨hvalid, hkind⟩ := valid_heading o (h _ List.mem_cons_self).1
    obtain ⟨hchoice, hbody⟩ := soundAll_nodesAll o (offset + (extra + 1)) body hproper
      fun l hl => h l (by simp [lexemes, hl])
    rw [nodes_group, Node.NoChoice, List.forall_mem_singleton]
    exact ⟨nofun, ⟨hvalid, Node.holds_of_ne hkind hchoice, hbody⟩, trivial⟩
  | .conditional condition branches, hproper, h => by
    obtain ⟨hproperCondition, hproperBranches, hbars⟩ := hproper
    obtain ⟨hchoiceCondition, hcondition⟩ := soundAll_nodesAll o (offset + 3) condition
      hproperCondition fun l hl => h l (by simp [lexemes, hl])
    obtain ⟨hchoiceBranches, hbranches⟩ :=
      soundAll_nodesAll o (offset + 4 + widthAll condition) branches hproperBranches
        fun l hl => h l (by simp [lexemes, hl])
    have hsound : (choiceNode o offset condition branches).Sound :=
      Node.sound_choose hchoiceCondition hchoiceBranches (by rwa [bars_nodesAll]) hcondition
        hbranches
    rw [nodes_conditional, Node.NoChoice, List.forall_mem_singleton]
    exact ⟨nofun, ⟨trivial, ⟨_, rfl, Node.kind_choose _ _⟩, hsound, trivial⟩, trivial⟩

theorem soundAll_nodesAll (o : Options) (offset : Nat) :
    (cs : List Construct) → ProperAll cs → (∀ l ∈ lexemesAll cs, l.token.SoundInside) →
      Node.NoChoice (nodesAll o offset cs) ∧ Node.SoundAll (nodesAll o offset cs)
  | [], _, _ => ⟨nofun, trivial⟩
  | c :: cs, hproper, h => by
    obtain ⟨hchoice, hc⟩ := sound_nodes o offset c hproper.1
      fun l hl => h l (List.mem_append_left _ hl)
    obtain ⟨hchoices, hcs⟩ := soundAll_nodesAll o (offset + c.width) cs hproper.2.2
      fun l hl => h l (List.mem_append_right _ hl)
    rw [nodesAll_cons, Node.noChoice_append, Node.soundAll_append]
    exact ⟨⟨hchoice, hchoices⟩, hc, hcs⟩

end

/-- A class without its bracket is a construct by itself, or tokens of the same construct are
behind it. -/
theorem exists_lexemes_behind {c : Construct} {l : Lexeme} (hl : l ∈ c.lexemes)
    (hclass : l.token = .atom (.charClass .unterminated))
    (hc : ∀ extra, c ≠ .atom (.charClass .unterminated) extra) :
    ∃ before after, c.lexemes = before ++ l :: after ∧ after ≠ [] := by
  obtain ⟨before, after, hsplit⟩ := List.append_of_mem hl
  refine ⟨before, after, hsplit, ?_⟩
  rintro rfl
  have hclosing : closing ∉ c.lexemes := by
    intro hclosing
    obtain ⟨init, hinit⟩ := exists_lexemes_eq_concat hclosing
    rw [hsplit] at hinit
    obtain rfl := List.singleton_inj.1 (List.append_inj' hinit rfl).2
    cases hclass
  cases c with
  | atom a extra =>
    rw [lexemes, List.mem_singleton] at hl
    subst hl
    obtain rfl := Token.atom.inj hclass
    exact hc extra rfl
  | run first more =>
    obtain ⟨literal, -, rfl⟩ := List.mem_map.1 hl
    cases hclass
  | skipped comment extra =>
    rw [lexemes, List.mem_singleton] at hl
    subst hl
    cases comment <;> cases hclass
  | bar | bare =>
    rw [lexemes, List.mem_singleton] at hl
    subst hl
    cases hclass
  | group | conditional => exact hclosing (by simp [lexemes])

mutual

/-- The bars of a construct in the tree are bars among its tokens, in the same order. -/
theorem positions_nodes_sublist (o : Options) (offset : Nat) :
    (c : Construct) →
      (Node.positionsAll (c.nodes o offset)).Sublist (Lexeme.barPositions offset c.lexemes)
  | .skipped _ _ | .atom _ _ | .bare _ _ => List.nil_sublist _
  | .run first more => by
    rw [nodes, Node.positionsAll_literals]
    exact List.nil_sublist _
  | .bar => List.Sublist.refl _
  | .group heading extra body => by
    have hbody := positions_nodesAll_sublist o (offset + (extra + 1)) body
    have hopening : (opening heading extra).token ≠ .bar := by
      cases heading <;> exact nofun
    rw [nodes_group, groupNode, Node.positionsAll_singleton, Node.positions, lexemes,
      Lexeme.barPositions_cons_of_ne _ hopening, Lexeme.barPositions_append]
    exact hbody.trans (List.sublist_append_left _ _)
  | .conditional condition branches => by
    have hcondition := positions_nodesAll_sublist o (offset + 3) condition
    have hbranches := positions_nodesAll_sublist o (offset + 4 + widthAll condition) branches
    have hplace : offset + 3 + widthAll condition + 1 = offset + 4 + widthAll condition := by omega
    have htokens : Lexeme.barPositions offset (conditional condition branches).lexemes =
        Lexeme.barPositions (offset + 3) (lexemesAll condition) ++
          Lexeme.barPositions (offset + 4 + widthAll condition) (lexemesAll branches) := by
      have hopening : openingCondition.token ≠ .bar := nofun
      have hclosing : closing.token ≠ .bar := nofun
      rw [lexemes, Lexeme.barPositions_cons_of_ne _ hopening, Lexeme.barPositions_append,
        Lexeme.barPositions_cons_of_ne _ hclosing, Lexeme.barPositions_append, ← hplace]
      exact congrArg _ (List.append_nil _)
    rw [nodes_conditional, Node.positionsAll_singleton, Node.positions,
      Node.positionsAll_singleton, htokens]
    -- the bar between the branches is among the tokens only
    exact (Node.positions_choose_sublist _ _).trans (hcondition.append hbranches)

theorem positions_nodesAll_sublist (o : Options) (offset : Nat) :
    (cs : List Construct) →
      (Node.positionsAll (nodesAll o offset cs)).Sublist
        (Lexeme.barPositions offset (lexemesAll cs))
  | [] => List.Sublist.refl _
  | c :: cs => by
    rw [nodesAll_cons, Node.positionsAll_append, lexemesAll_cons, Lexeme.barPositions_append]
    exact (positions_nodes_sublist o offset c).append
      (positions_nodesAll_sublist o (offset + c.width) cs)

end

variable {cs : List Construct} {o : Options} {pattern : Text}

/-- Constructs that make up a pattern lead to sound nodes, unless the last one is a class without
its bracket. -/
theorem Forms.exists_tree_eq (h : Forms cs o pattern) :
    Node.NoChoice (nodesAll o 0 cs) ∧ ∃ init last, nodesAll o 0 cs = init ++ last ∧
      Node.SoundAll init ∧ (last = [] ∨ last = [.atom (.charClass .unterminated)]) := by
  have hlex := h.lexemesAll_eq
  have hproper := h.proper
  rcases List.eq_nil_or_concat cs with rfl | ⟨cs, c, rfl⟩
  · exact ⟨List.forall_mem_nil _, [], [], rfl, trivial, .inl rfl⟩
  rw [List.concat_eq_append] at hlex hproper ⊢
  rw [lexemesAll_append, lexemesAll_cons, lexemesAll_nil, List.append_nil] at hlex
  obtain ⟨hproperAll, ⟨hproper, -⟩, -⟩ := (properAll_append_iff _ _).1 hproper
  -- before the last construct every token has others behind it
  obtain ⟨hchoices, hcs⟩ := soundAll_nodesAll o 0 cs hproperAll fun l hl => by
    obtain ⟨before, after, hsplit⟩ := List.append_of_mem hl
    rw [hsplit, List.append_assoc, List.cons_append] at hlex
    exact Lexeme.soundInside_of_lex_eq hlex.symm (by simp [lexemes_ne_nil])
  rw [nodesAll_append, nodesAll_cons, nodesAll_nil, List.append_nil, Node.noChoice_append]
  by_cases hclass : ∃ extra, c = .atom (.charClass .unterminated) extra
  · obtain ⟨extra, rfl⟩ := hclass
    have hchoice : Node.NoChoice [.atom (.charClass .unterminated)] :=
      List.forall_mem_singleton.2 (by simp [Node.kind, Atom.kind])
    exact ⟨⟨hchoices, hchoice⟩, _, _, rfl, hcs, .inr rfl⟩
  · rw [not_exists] at hclass
    obtain ⟨hchoice, hc⟩ := sound_nodes o (0 + widthAll cs) c hproper fun l hl => by
      have hmem : l ∈ Lexeme.lex o.ignoreWhitespace pattern :=
        hlex ▸ List.mem_append_right _ hl
      refine ⟨Lexeme.sound_of_mem_lex hmem, fun hopen => ?_⟩
      obtain ⟨before, after, hsplit, hafter⟩ := exists_lexemes_behind hl hopen hclass
      rw [hsplit, ← List.append_assoc] at hlex
      exact (Lexeme.soundInside_of_lex_eq hlex.symm hafter).2 hopen
    refine ⟨⟨hchoices, hchoice⟩, _, [], (List.append_nil _).symm, ?_, .inl rfl⟩
    exact (Node.soundAll_append _ _).2 ⟨hcs, hc⟩

end Construct

open Construct

/-- The shape of the tree that a pattern has. -/
structure Explanation.Shaped (pattern : Text) (e : Explanation) : Prop where
  /-- No choice stands outside of the groups of conditionals. -/
  noChoice : Node.NoChoice e.tree
  /-- All nodes are sound. Only the last one may be a class without its bracket. -/
  sound : ∃ init last, e.tree = init ++ last ∧ Node.SoundAll init ∧
    (last = [] ∨ last = [.atom (.charClass .unterminated)])
  /-- The bars of the tree are in the order of their positions. -/
  increasing : (Node.positionsAll e.tree).Pairwise (· < ·)
  /-- Where a bar of the tree is, the pattern has one. -/
  bars : ∀ pos ∈ Node.positionsAll e.tree, pattern[pos]? = some '|'

/-- The tree of every pattern that can be explained is shaped as trees are. -/
theorem shaped_of_explain {pattern : Text} {o : Options} {e : Explanation}
    (h : explain pattern o = .ok e) : e.Shaped pattern := by
  obtain ⟨cs, hcs, rfl⟩ := explain_eq_ok_iff.1 h
  obtain ⟨hchoice, hsound⟩ := hcs.exists_tree_eq
  have hpositions := positions_nodesAll_sublist o 0 cs
  rw [hcs.lexemesAll_eq] at hpositions
  refine ⟨hchoice, hsound, ?_, fun pos hpos => ?_⟩
  · refine (Lexeme.pairwise_barPositions 0 fun l hl => ?_).sublist hpositions
    exact (Lexeme.shaped_of_mem_lex hl).1
  · obtain ⟨before, l, after, hlex, hbar, rfl⟩ :=
      Lexeme.exists_of_mem_barPositions (hpositions.subset hpos)
    rw [Nat.zero_add]
    exact Lexeme.getElem?_of_firstGlyph? hlex (by rw [hbar]; rfl)

/-- The bar between the branches is not in the tree, that of the condition is. -/
theorem shaped_of_explain_conditional :
    ∃ e, explain ['(', '?', '(', 'a', '|', 'b', ')', 'c', '|', 'd', ')', '[', 'x'] {} = .ok e ∧
      e.Shaped ['(', '?', '(', 'a', '|', 'b', ')', 'c', '|', 'd', ')', '[', 'x'] ∧
      Node.positionsAll e.tree = [4] := by
  obtain ⟨e, he, hpositions⟩ : ∃ e,
      explain ['(', '?', '(', 'a', '|', 'b', ')', 'c', '|', 'd', ')', '[', 'x'] {} = .ok e ∧
        Node.positionsAll e.tree = [4] := ⟨_, rfl, rfl⟩
  exact ⟨e, he, shaped_of_explain he, hpositions⟩

end RegexGloss
