import RegexGloss.Proofs.Construct.Assembly
import RegexGloss.Proofs.Spelling.Token

/-!
# Writing nodes

Glyphs write nodes where they add just these to any assembly (`Text.Writes`). This is dealt with
apart from what a tree looks like: by tokens that are nodes by themselves, by glyphs that follow
each other, and by glyphs between parentheses.
-/

namespace RegexGloss

open Text Construct

/-! ## Closing parentheses -/

namespace Assembly

/-- A closing parenthesis ends a group, which becomes a node behind those before it. -/
theorem exists_close_group {a : Assembly} {start : Nat} {kind : GroupKind} {before : List Node}
    {frames : List Frame} (h : a.frames = .group start kind before :: frames) :
    ∃ b, a.close = .ok b ∧ b.offset = a.offset + 1 ∧ b.frames = frames ∧
      b.nodes = .group kind a.nodes.reverse :: before := by
  simp only [close, h, Except.ok.injEq, exists_eq_left']
  exact ⟨rfl, rfl, rfl⟩

/-- A closing parenthesis ends the condition of a conditional, and its branches begin. -/
theorem exists_close_condition {a : Assembly} {start : Nat} {before : List Node}
    {frames : List Frame} (h : a.frames = .condition start before :: frames) :
    ∃ b, a.close = .ok b ∧ b.offset = a.offset + 1 ∧
      b.frames = .branches start a.nodes.reverse before :: frames ∧ b.nodes = [] := by
  simp only [close, h, Except.ok.injEq, exists_eq_left']
  exact ⟨rfl, rfl, rfl⟩

/-- A closing parenthesis ends the branches of a conditional if at most one bar separates them. -/
theorem exists_close_branches {a : Assembly} {start : Nat} {condition before : List Node}
    {frames : List Frame} (h : a.frames = .branches start condition before :: frames)
    (hbars : Node.bars a.nodes.reverse ≤ 1) :
    ∃ b, a.close = .ok b ∧ b.offset = a.offset + 1 ∧ b.frames = frames ∧
      b.nodes = .group .conditional [.choose condition a.nodes.reverse] :: before := by
  have hchoice := (Node.ofBranches_eq_ok_iff condition a.nodes.reverse _).2 ⟨hbars, rfl⟩
  simp only [close, h, hchoice, Except.ok.injEq, exists_eq_left']
  exact ⟨rfl, rfl, rfl⟩

end Assembly

/-! ## Glyphs that write nodes -/

/-- Where the text goes on with `t`, the glyphs `s` add nodes to any assembly. Which nodes these are
depends on the offset. -/
def Text.Writes (s : Text) (nodes : Nat → List Node) (t : Text) : Prop :=
  ∀ a : Assembly, ∃ b : Assembly,
    Assembly.run {} a (Lexeme.lex false (s ++ t)) = Assembly.run {} b (Lexeme.lex false t) ∧
      b.offset = a.offset + s.length ∧ b.frames = a.frames ∧
        b.nodes = (nodes a.offset).reverse ++ a.nodes

namespace Text.Writes

variable {s u t w : Text} {f g : Nat → List Node}

theorem nil (t : Text) : Writes [] (fun _ => []) t := fun a => ⟨a, rfl, rfl, rfl, rfl⟩

/-- Glyphs in two parts write the nodes of each part. -/
theorem append (hs : Writes s f (u ++ t)) (hu : Writes u g t) :
    Writes (s ++ u) (fun offset => f offset ++ g (offset + s.length)) t := by
  intro a
  obtain ⟨b, hb, hoffset, hframes, hnodes⟩ := hs a
  obtain ⟨c, hc, hoffset', hframes', hnodes'⟩ := hu b
  refine ⟨c, ?_, ?_, hframes'.trans hframes, ?_⟩
  · rw [List.append_assoc, hb, hc]
  · rw [hoffset', hoffset, List.length_append, Nat.add_assoc]
  · rw [hnodes', hnodes, hoffset, List.reverse_append, List.append_assoc]

/-- A token that adds a node by itself is written with its glyphs. -/
theorem of_leaf {token : Token} {n : Nat → Node} (h : token.Reads s t)
    (hstep : ∀ a : Assembly, ∃ marks, Assembly.step {} a ⟨token, s.length⟩ =
      .ok { a with offset := a.offset + s.length, nodes := n a.offset :: a.nodes, marks }) :
    Writes s (fun offset => [n offset]) t := by
  intro a
  obtain ⟨marks, ha⟩ := hstep a
  refine ⟨{ a with offset := a.offset + s.length, nodes := n a.offset :: a.nodes, marks }, ?_, rfl,
    rfl, rfl⟩
  rw [h.lex_eq, Assembly.run_cons_of_step ha]

theorem atom {x : Atom} (h : Token.Reads (.atom x) s t) : Writes s (fun _ => [.atom x]) t :=
  of_leaf (n := fun _ => .atom x) h fun _ => ⟨_, rfl⟩

theorem bare {kind : GroupKind} (h : Token.Reads (.bareGroup kind) s t) :
    Writes s (fun _ => [.bare kind]) t :=
  of_leaf (n := fun _ => .bare kind) h fun _ => ⟨_, rfl⟩

theorem bar (t : Text) : Writes ['|'] (fun offset => [.bar offset]) t :=
  have h : Token.Reads .bar ['|'] t := Token.reads_cons rfl
  of_leaf (n := .bar) h fun _ => ⟨_, rfl⟩

/-- Glyphs between the opener of a group and its closing parenthesis write the body of the group. -/
theorem group {kind : GroupKind} {token : Token} (hopen : token.Reads ('(' :: w) (s ++ ')' :: t))
    (hstep : ∀ a : Assembly, Assembly.step {} a ⟨token, w.length + 1⟩ =
      .ok (a.enter (.group a.offset kind a.nodes) (w.length + 1)))
    (hs : Writes s f (')' :: t)) :
    Writes ('(' :: (w ++ (s ++ [')']))) (fun offset => [.group kind (f (offset + (w.length + 1)))])
      t := by
  intro a
  obtain ⟨b, hb, hoffset, hframes, hnodes⟩ :=
    hs (a.enter (.group a.offset kind a.nodes) (w.length + 1))
  have htext : '(' :: (w ++ (s ++ [')'])) ++ t = '(' :: w ++ (s ++ ')' :: t) := by simp
  -- the body is reversed once more where the group is closed
  have hbody : b.nodes.reverse = f (a.offset + (w.length + 1)) := by
    rw [hnodes, Assembly.enter, List.reverse_append, List.reverse_reverse]
    rfl
  obtain ⟨c, hclose, hoffsetC, hframesC, hnodesC⟩ := Assembly.exists_close_group hframes
  refine ⟨c, ?_, ?_, hframesC, ?_⟩
  · rw [htext, hopen.lex_eq, List.length_cons, Assembly.run_cons_of_step (hstep a), hb,
      lex_closing, Assembly.run_closing_of_close hclose]
  · have hlength : ('(' :: (w ++ (s ++ [')']))).length = w.length + 1 + s.length + 1 := by
      simp
      omega
    have henter : (a.enter (.group a.offset kind a.nodes) (w.length + 1)).offset =
      a.offset + (w.length + 1) := rfl
    rw [hoffsetC, hoffset, henter, hlength]
    omega
  · rw [hnodesC, hbody]
    rfl

/-- Glyphs between the parentheses of a condition and behind it write a conditional. -/
theorem conditional (hs : Writes s f (')' :: (u ++ ')' :: t))) (hu : Writes u g (')' :: t))
    (hbars : ∀ offset, Node.bars (g offset) ≤ 1) :
    Writes ('(' :: '?' :: '(' :: (s ++ ')' :: (u ++ [')'])))
      (fun offset => [.group .conditional [.choose (f (offset + 3)) (g (offset + 4 + s.length))]])
      t := by
  intro a
  have htext : '(' :: '?' :: '(' :: (s ++ ')' :: (u ++ [')'])) ++ t =
    ['(', '?', '('] ++ (s ++ ')' :: (u ++ ')' :: t)) := by simp
  have hopen := (GroupKind.reads_condition (s ++ ')' :: (u ++ ')' :: t))).lex_eq
  have hstep : Assembly.step {} a ⟨.openCondition, 3⟩ = .ok a.enterCondition := rfl
  have hoffsetA : a.enterCondition.offset = a.offset + 3 := rfl
  have hnodesA : a.enterCondition.nodes = [] := rfl
  -- the condition is read behind three glyphs, and the branches behind the parenthesis after it
  obtain ⟨b, hb, hoffsetB, hframesB, hnodesB⟩ := hs a.enterCondition
  obtain ⟨c, hcloseB, hoffsetC, hframesC, hnodesC⟩ := Assembly.exists_close_condition hframesB
  obtain ⟨d, hd, hoffsetD, hframesD, hnodesD⟩ := hu c
  rw [hframesC] at hframesD
  have hcondition : b.nodes.reverse = f (a.offset + 3) := by
    rw [hnodesB, hnodesA, List.append_nil, List.reverse_reverse, hoffsetA]
  have hbranches : d.nodes.reverse = g (a.offset + 4 + s.length) := by
    rw [hnodesD, hnodesC, List.append_nil, List.reverse_reverse, hoffsetC, hoffsetB, hoffsetA]
    congr 1
    omega
  obtain ⟨e, hcloseD, hoffsetE, hframesE, hnodesE⟩ :=
    Assembly.exists_close_branches hframesD (hbranches ▸ hbars _)
  refine ⟨e, ?_, ?_, hframesE, ?_⟩
  · rw [htext, hopen, List.length_cons, List.length_cons, List.length_singleton,
      Assembly.run_cons_of_step hstep, hb, lex_closing,
      Assembly.run_closing_of_close hcloseB, hd, lex_closing,
      Assembly.run_closing_of_close hcloseD]
  · rw [hoffsetE, hoffsetD, hoffsetC, hoffsetB, hoffsetA]
    simp
    omega
  · rw [hnodesE, hcondition, hbranches]
    rfl

end Text.Writes

end RegexGloss
