import RegexGloss.Proofs.Construct.Explanation
import RegexGloss.Proofs.Token.Unbroken

/-!
# Indentation

To indent an explanation is to put spaces in front of each of its lines (`Text.indentLines`, which
finds the lines in the text alone). Rendering nodes at an indentation does just this, although
conditionals take the spaces away in front of some lines, and bodies and bars add spaces of their
own. Trees of patterns without line ends have texts without line ends, so it holds of all their
explanations.

Main statement: `renderAll_eq_indentLines`.
-/

namespace RegexGloss

open Text

namespace Text

/-! ## Lines of a text -/

/-- The lines of a text, each up to its line end, and what stands behind the last line end. -/
def splitLines : Text → List Text × Text
  | [] => ([], [])
  | '\r' :: '\n' :: t => ([] :: (splitLines t).1, (splitLines t).2)
  | c :: t =>
    match splitLines t with
    | ([], rest) => ([], c :: rest)
    | (l :: ls, rest) => ((c :: l) :: ls, rest)

/-- A text with an indentation in front of each of its lines. What stands behind the last line end
is no line. -/
def indentLines (indent : Nat) (t : Text) : Text :=
  unlines indent (splitLines t).1 ++ (splitLines t).2

/-- A text without line ends is the first line up to the first line end behind it. -/
theorem splitLines_append_lineEnd {l : Text} (h : l.Unbroken) (t : Text) :
    splitLines (l ++ lineEnd ++ t) = (l :: (splitLines t).1, (splitLines t).2) := by
  induction l with
  | nil => rfl
  | cons c l ih =>
    obtain ⟨hc, hl⟩ := List.forall_mem_cons.1 h
    have hsplit := ih hl
    rw [List.cons_append, List.cons_append]
    -- the glyph is no carriage return, so it belongs to the line that goes on behind it
    rw [splitLines, hsplit]
    intro u hu _
    exact hc.1 hu

/-- The lines of a text of whole lines are these lines. -/
theorem splitLines_unlines {ls : List Text} (h : ∀ l ∈ ls, l.Unbroken) :
    splitLines (unlines 0 ls) = (ls, []) := by
  induction ls with
  | nil => rfl
  | cons l ls ih =>
    obtain ⟨hl, hls⟩ := List.forall_mem_cons.1 h
    have hlines : unlines 0 (l :: ls) = l ++ lineEnd ++ unlines 0 ls := rfl
    rw [hlines, splitLines_append_lineEnd hl, ih hls]

/-- A text of lines at an indentation is the text without indentation, with its lines indented. -/
theorem Lined.eq_indentLines {f : Nat → Text} (h : Lined f) (indent : Nat) :
    f indent = indentLines indent (f 0) ∧ (splitLines (f 0)).2 = [] := by
  obtain ⟨ls, hls, hf⟩ := h
  have hsplit : splitLines (f 0) = (ls, []) := by
    rw [hf, splitLines_unlines hls]
  constructor
  · rw [indentLines, hsplit, List.append_nil, hf]
  · rw [hsplit]

end Text

/-! ## Trees of patterns without line ends -/

namespace Node

theorem unbrokenAll_append (ms ns : List Node) :
    UnbrokenAll (ms ++ ns) ↔ UnbrokenAll ms ∧ UnbrokenAll ns := by
  induction ms with
  | nil => simp [UnbrokenAll]
  | cons m ms ih => rw [List.cons_append, UnbrokenAll, UnbrokenAll, ih, and_assoc]

theorem unbrokenAll_singleton {n : Node} (h : n.Unbroken) : UnbrokenAll [n] := ⟨h, trivial⟩

theorem unbroken_choose {condition branches : List Node} (hcondition : UnbrokenAll condition)
    (hbranches : UnbrokenAll branches) : (choose condition branches).Unbroken := by
  rcases choose_eq_or condition branches with h | ⟨yes, pos, no, rfl, h⟩
  · rw [h]
    exact ⟨hcondition, hbranches⟩
  · obtain ⟨hyes, -, hno⟩ := (unbrokenAll_append _ _).1 hbranches
    rw [h]
    exact ⟨hcondition, hyes, hno⟩

end Node

namespace Construct

mutual

/-- The nodes of a construct have no line ends if its tokens have none. -/
theorem unbrokenAll_nodes (o : Options) (offset : Nat) :
    (c : Construct) → (∀ l ∈ c.lexemes, l.token.Unbroken) → Node.UnbrokenAll (c.nodes o offset)
  | .skipped _ _, _ | .bar, _ => by
    simp [nodes, Node.UnbrokenAll, Node.Unbroken]
  | .run first more, h => by
    have hliterals (ls : List Literal) (hls : ∀ l ∈ ls, l.lexeme.token.Unbroken) :
        Node.UnbrokenAll (ls.map Literal.node) := by
      induction ls with
      | nil => trivial
      | cons l ls ih =>
        obtain ⟨hl, hls⟩ := List.forall_mem_cons.1 hls
        exact ⟨hl, ih hls⟩
    exact hliterals (first :: more) fun l hl => h l.lexeme (List.mem_map_of_mem hl)
  | .atom a extra, h => by
    have ha := h ⟨.atom a, extra + 1⟩ List.mem_cons_self
    exact Node.unbrokenAll_singleton ha
  | .bare kind extra, h => by
    have hkind := h ⟨.bareGroup kind, extra + 1⟩ List.mem_cons_self
    exact Node.unbrokenAll_singleton hkind
  | .group heading extra body, h => by
    have hkind : (heading.getD (Assembly.plainKind o)).Unbroken := by
      cases heading with
      | some kind => exact h (opening (some kind) extra) List.mem_cons_self
      | none =>
        rw [Option.getD_none, Assembly.plainKind]
        split <;> trivial
    have hbody := unbrokenAll_nodesAll o (offset + (extra + 1)) body fun l hl =>
      h l (by simp [lexemes, hl])
    exact Node.unbrokenAll_singleton ⟨hkind, hbody⟩
  | .conditional condition branches, h => by
    have hcondition := unbrokenAll_nodesAll o (offset + 3) condition fun l hl =>
      h l (by simp [lexemes, hl])
    have hbranches := unbrokenAll_nodesAll o (offset + 4 + widthAll condition) branches
      fun l hl => h l (by simp [lexemes, hl])
    have hchoice := Node.unbroken_choose hcondition hbranches
    exact Node.unbrokenAll_singleton ⟨trivial, Node.unbrokenAll_singleton hchoice⟩

/-- The nodes of constructs have no line ends if their tokens have none. -/
theorem unbrokenAll_nodesAll (o : Options) (offset : Nat) :
    (cs : List Construct) → (∀ l ∈ lexemesAll cs, l.token.Unbroken) →
      Node.UnbrokenAll (nodesAll o offset cs)
  | [], _ => trivial
  | c :: cs, h => by
    rw [nodesAll_cons, Node.unbrokenAll_append]
    constructor
    · exact unbrokenAll_nodes o offset c fun l hl => h l (List.mem_append_left _ hl)
    · exact unbrokenAll_nodesAll o (offset + c.width) cs fun l hl =>
        h l (List.mem_append_right _ hl)

end

end Construct

open Construct

/-- The tree of a pattern without line ends has no texts with line ends. -/
theorem unbrokenAll_tree_of_explain {pattern : Text} {o : Options} {e : Explanation}
    (hpattern : pattern.Unbroken) (h : explain pattern o = .ok e) : Node.UnbrokenAll e.tree := by
  obtain ⟨cs, hcs, rfl⟩ := explain_eq_ok_iff.1 h
  apply unbrokenAll_nodesAll
  intro l hl
  rw [hcs.lexemesAll_eq] at hl
  exact Lexeme.unbroken_of_mem_lex hpattern hl

/-- Nodes whose texts have no line ends are rendered at an indentation like without one, but with
the indentation in front of each line. The explanation of a pattern without line ends is made of
such nodes. -/
theorem renderAll_eq_indentLines (indent : Nat) :
    (∀ ns : List Node, Node.UnbrokenAll ns →
      Node.renderAll indent ns = indentLines indent (Node.renderAll 0 ns) ∧
        (splitLines (Node.renderAll 0 ns)).2 = []) ∧
    ∀ (pattern : Text) (o : Options) (e : Explanation), pattern.Unbroken →
      explain pattern o = .ok e →
        Node.UnbrokenAll e.tree ∧ Node.renderAll indent e.tree = indentLines indent e.text := by
  have hnodes (ns : List Node) (h : Node.UnbrokenAll ns) :=
    (Node.lined_renderAll h).eq_indentLines indent
  refine ⟨hnodes, fun pattern o e hpattern he => ?_⟩
  have htree := unbrokenAll_tree_of_explain hpattern he
  exact ⟨htree, (hnodes e.tree htree).1⟩

/-- The condition starts with a bar, and the second branch is empty. -/
theorem renderAll_eq_indentLines_conditional :
    ∃ e, explain "(?(|(a))b|)".toList {} = .ok e ∧
      Node.renderAll 4 e.tree = indentLines 4 e.text ∧
      Node.renderAll 4 [.ifThen [.bar 0, .atom (.literal [' ', 'a'])] []] =
        indentLines 4 (Node.renderAll 0 [.ifThen [.bar 0, .atom (.literal [' ', 'a'])] []]) := by
  obtain ⟨e, he⟩ : ∃ e, explain "(?(|(a))b|)".toList {} = .ok e := ⟨_, rfl⟩
  have hnodes : Node.UnbrokenAll [.ifThen [.bar 0, .atom (.literal [' ', 'a'])] []] := by
    simp [Node.UnbrokenAll, Node.Unbroken, Atom.Unbroken, Text.Unbroken]
  exact ⟨e, he, ((renderAll_eq_indentLines 4).2 _ _ e (by decide +kernel) he).2,
    ((renderAll_eq_indentLines 4).1 _ hnodes).1⟩

end RegexGloss
