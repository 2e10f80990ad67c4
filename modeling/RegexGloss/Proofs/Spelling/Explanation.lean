import RegexGloss.Proofs.Construct.Explanation
import RegexGloss.Proofs.Spelling.Writes

/-!
# Explaining what is written

What `Node.spellAll` writes for well-formed nodes can be explained, and the explanation has the
nodes that were written, with their bars at their positions (`explain_spellAll`). The glyphs of a
node are read as this node wherever they stand, unless a `?` follows that a greedy quantifier would
take in (`Node.writes_spell`).
-/

namespace RegexGloss

open Text

/-! ## Groups -/

namespace GroupKind

/-- The opener of a group opens it. What follows it matters for plain parentheses and settings
only. -/
theorem exists_reads_opener {kind : GroupKind} (h : kind.Valid) (hkind : kind ≠ .conditional)
    {t : Text} (hcapture : kind = .capture → t.head? ≠ some '?')
    (hsettings : ∀ list, kind = .settings list → t.head? ≠ some ')') :
    ∃ token : Token, token.Reads ('(' :: kind.opener) t ∧
      ∀ (a : Assembly) (width : Nat), Assembly.step {} a ⟨token, width⟩ =
        .ok (a.enter (.group a.offset kind a.nodes) width) := by
  by_cases hplain : kind = .capture
  · subst hplain
    exact ⟨.openPlain, Token.reads_parenthesis (hcapture rfl), fun _ _ => rfl⟩
  · exact ⟨.openGroup kind, reads_opener h hplain hkind hsettings, fun _ _ => rfl⟩

end GroupKind

namespace Node

/-- Outside of conditionals, the body of a group has no choices. -/
theorem Fits.noChoice {body : List Node} {kind : GroupKind} (h : Fits body kind)
    (hkind : kind ≠ .conditional) : NoChoice body := by
  cases kind with
  | conditional => exact absurd rfl hkind
  | capture | settings => exact h.1
  | _ => exact h

/-- A body that fits a group, before its closing parenthesis, leaves the opener as it is. -/
theorem Fits.exists_reads_opener {body : List Node} {kind : GroupKind} (h : Fits body kind)
    (hvalid : kind.Valid) (hkind : kind ≠ .conditional) (hbody : WellFormedAll body) (t : Text) :
    ∃ token : Token, token.Reads ('(' :: kind.opener) (spellAll body ++ ')' :: t) ∧
      ∀ (a : Assembly) (width : Nat), Assembly.step {} a ⟨token, width⟩ =
        .ok (a.enter (.group a.offset kind a.nodes) width) := by
  refine GroupKind.exists_reads_opener hvalid hkind ?_ ?_
  · rintro rfl
    exact head?_spellAll_append_ne_question hbody h.2 (by simp)
  · rintro list rfl
    exact head?_spellAll_append_ne_close hbody h.2

/-! ## Conditionals -/

/-- A condition and one branch are written as the group of a choice. -/
theorem writes_ifThen {condition yes : List Node} {t : Text}
    (hcondition : Writes (spellAll condition) (placeAll · condition)
      (')' :: (spellAll yes ++ ')' :: t)))
    (hyes : Writes (spellAll yes) (placeAll · yes) (')' :: t)) (hbars : bars yes = 0) :
    Writes (group .conditional [ifThen condition yes]).spell
      (fun offset => [(group .conditional [ifThen condition yes]).place offset]) t := by
  have hplaced (offset : Nat) : bars (placeAll offset yes) = 0 :=
    (bars_placeAll offset yes).trans hbars
  have h := hcondition.conditional hyes fun offset => by
    rw [hplaced offset]
    exact Nat.zero_le 1
  simp only [choose_of_bars_eq_zero _ (hplaced _)] at h
  have hspell : (group .conditional [ifThen condition yes]).spell =
      '(' :: '?' :: '(' :: (spellAll condition ++ ')' :: (spellAll yes ++ [')'])) := by
    simp [spell, GroupKind.opener]
  rw [hspell]
  exact h

/-- A condition and two branches are written as the group of a choice. -/
theorem writes_ifThenElse {condition yes no : List Node} {t : Text}
    (hcondition : Writes (spellAll condition) (placeAll · condition)
      (')' :: (spellAll yes ++ '|' :: (spellAll no ++ ')' :: t))))
    (hyes : Writes (spellAll yes) (placeAll · yes) ('|' :: (spellAll no ++ ')' :: t)))
    (hno : Writes (spellAll no) (placeAll · no) (')' :: t))
    (hbars : bars yes = 0) (hbars' : bars no = 0) :
    Writes (group .conditional [ifThenElse condition yes no]).spell
      (fun offset => [(group .conditional [ifThenElse condition yes no]).place offset]) t := by
  -- the branches are the nodes before the bar, the bar and the nodes behind it
  have hbranches := hyes.append ((Writes.bar (spellAll no ++ ')' :: t)).append hno)
  have hplaced (offset : Nat) : bars (placeAll offset yes) = 0 :=
    (bars_placeAll offset yes).trans hbars
  have htext : spellAll yes ++ '|' :: (spellAll no ++ ')' :: t) =
      spellAll yes ++ (['|'] ++ spellAll no) ++ ')' :: t := by simp
  rw [htext] at hcondition
  have h := hcondition.conditional hbranches fun offset => by
    rw [bars_append, hplaced, Nat.zero_add, bars_append, bars_placeAll, hbars']
    exact Nat.le_refl 1
  simp only [List.singleton_append, choose_append_bar _ (hplaced _)] at h
  have hspell : (group .conditional [ifThenElse condition yes no]).spell =
      '(' :: '?' :: '(' ::
        (spellAll condition ++ ')' :: (spellAll yes ++ (['|'] ++ spellAll no) ++ [')'])) := by
    simp [spell, GroupKind.opener]
  rw [hspell]
  exact h

/-! ## Nodes -/

mutual

/-- What is written for a node that is no choice is read as this node. -/
theorem writes_spell : (n : Node) → n.WellFormed → n.kind ≠ .conditional → (t : Text) →
    (n.isGreedy = true → t.head? ≠ some '?') →
      Writes n.spell (fun offset => [n.place offset]) t
  | atom a, h, _, t, ht => Writes.atom (Atom.reads_spell h ht)
  | bar _, _, _, t, _ => Writes.bar t
  | bare _, h, _, t, _ => by
    obtain ⟨list, rfl, hlist⟩ := h
    exact Writes.bare (GroupKind.reads_bare hlist t)
  | group kind body, h, _, t, _ => by
    obtain ⟨hvalid, hfits, hbody⟩ := h
    by_cases hkind : kind = .conditional
    · -- the group of a choice is written together with it
      subst hkind
      exact writes_choice body hfits hbody t
    · obtain ⟨token, hreads, hstep⟩ := hfits.exists_reads_opener hvalid hkind hbody t
      exact Writes.group hreads (fun a => hstep a _)
        (writes_spellAll body hbody (hfits.noChoice hkind) (')' :: t) (by simp))
  | ifThen _ _, _, h, _, _ => absurd rfl h
  | ifThenElse _ _ _, _, h, _, _ => absurd rfl h

/-- What is written for nodes that are no choices is read as these nodes. -/
theorem writes_spellAll : (ns : List Node) → WellFormedAll ns → NoChoice ns → (t : Text) →
    t.head? ≠ some '?' → Writes (spellAll ns) (fun offset => placeAll offset ns) t
  | [], _, _, t, _ => Writes.nil t
  | n :: ns, h, hplain, t, ht => by
    obtain ⟨hn, hgreedy, hns⟩ := h
    obtain ⟨hkind, hplain⟩ := List.forall_mem_cons.1 hplain
    -- the nodes behind a greedy quantifier do not start with a `?`
    exact (writes_spell n hn hkind _ fun hg =>
      head?_spellAll_append_ne_question hns (hgreedy hg) ht).append
        (writes_spellAll ns hns hplain t ht)

/-- What is written for the group of a choice is read as this group. -/
theorem writes_choice : (ns : List Node) → Fits ns .conditional → WellFormedAll ns → (t : Text) →
    Writes (group .conditional ns).spell (fun offset => [(group .conditional ns).place offset]) t
  | [ifThen condition yes], _, h, t => by
    obtain ⟨⟨⟨hcondition, hcondition'⟩, hyes, hbars, hyes'⟩, -⟩ := h
    exact writes_ifThen (writes_spellAll condition hcondition' hcondition _ (by simp))
      (writes_spellAll yes hyes' hyes _ (by simp)) hbars
  | [ifThenElse condition yes no], _, h, t => by
    obtain ⟨⟨⟨hcondition, hcondition'⟩, ⟨hyes, hbars, hyes'⟩, hno, hbars', hno'⟩, -⟩ := h
    exact writes_ifThenElse (writes_spellAll condition hcondition' hcondition _ (by simp))
      (writes_spellAll yes hyes' hyes _ (by simp)) (writes_spellAll no hno' hno _ (by simp))
      hbars hbars'
  -- nothing else fits a conditional
  | [atom a], h, _, _ => by
    obtain ⟨n, hn, hkind⟩ := h
    cases hn
    cases a <;> cases hkind
  | [bar _], h, _, _ | [group _ _], h, _, _ | [bare _], h, _, _ => by
    obtain ⟨n, hn, hkind⟩ := h
    cases hn
    cases hkind
  | [], h, _, _ | _ :: _ :: _, h, _, _ => by
    obtain ⟨n, hn, -⟩ := h
    cases hn

end

/-! ## Explanations -/

mutual

/-- The text of a node does not mention where it is placed. -/
theorem render_place (offset indent : Nat) :
    (n : Node) → render indent (place offset n) = render indent n
  | atom _ | bar _ | bare _ => rfl
  | group kind body => by
    rw [place, render, render, renderFrom_placeAll]
  | ifThen condition yes => by
    rw [place, render, render, renderFrom_placeAll, renderFrom_placeAll]
  | ifThenElse condition yes no => by
    rw [place, render, render, renderFrom_placeAll, renderFrom_placeAll, renderFrom_placeAll]

/-- The text of nodes does not mention where they are placed. -/
theorem renderFrom_placeAll (offset indent : Nat) (run : Text) :
    (ns : List Node) → renderFrom indent run (placeAll offset ns) = renderFrom indent run ns
  | [] => rfl
  | n :: ns => by
    rw [placeAll, renderFrom, renderFrom, literal?_place, render_place offset indent n]
    cases n.literal? with
    | none => rw [renderFrom_placeAll _ indent [] ns]
    | some text => exact renderFrom_placeAll _ indent (run ++ text) ns

end

end Node

open Construct

/-- What is written for well-formed nodes, none of which is a choice, can be explained, and the
explanation has these nodes with their bars at their positions. -/
theorem explain_spellAll {ns : List Node} (hplain : Node.NoChoice ns)
    (h : Node.WellFormedAll ns) :
    ∃ e, explain (Node.spellAll ns) {} = .ok e ∧ e.tree = Node.placeAll 0 ns ∧
      e.text = Node.renderAll 0 ns := by
  obtain ⟨b, hb, -, hframes, hnodes⟩ :=
    Node.writes_spellAll ns h hplain [] (by simp) { offset := 0 }
  have hrun : Assembly.run {} { offset := 0 } (Lexeme.lex false (Node.spellAll ns)) = .ok b := by
    rw [← List.append_nil (Node.spellAll ns), hb]
    rfl
  -- the assembly is that of constructs, and their nodes are those that were written
  obtain ⟨cs, hforms, rfl⟩ := assemble_lex_eq_ok_iff.1
    ((Assembly.assemble_eq_ok_iff_run ..).2 ⟨hrun, hframes⟩)
  have htree : nodesAll {} 0 cs = Node.placeAll 0 ns :=
    List.reverse_inj.1 (List.append_cancel_right hnodes)
  refine ⟨explanation {} cs, explain_eq_ok_iff.2 ⟨cs, hforms, rfl⟩, htree, ?_⟩
  rw [Explanation.text, explanation, htree, Node.renderAll, Node.renderFrom_placeAll]
  rfl

/-- A repeated conditional. Its condition is a bar, and a parenthesis that stands for itself is
matched if it holds. -/
theorem explain_spellAll_conditional :
    ∃ e, explain "(?(|)\\(|)*".toList {} = .ok e ∧
      e.tree = [.group .conditional [.ifThenElse [.bar 3] [.atom (.literal ['('])] []],
        .atom (.special "* (zero or more times)".toList)] := by
  have hplain : Node.NoChoice
      [.group .conditional [.ifThenElse [.bar 0] [.atom (.literal ['('])] []],
        .atom (.special "* (zero or more times)".toList)] := by
    simp [Node.NoChoice, Node.kind, Atom.kind]
  have hliteral : (Node.atom (.literal ['('])).WellFormed := .inr ⟨'(', by decide, rfl⟩
  have hcondition : Node.NoChoice [.bar 0] ∧ Node.WellFormedAll [.bar 0] :=
    ⟨by simp [Node.NoChoice, Node.kind], Node.wellFormedAll_singleton.2 trivial⟩
  have hyes : Node.NoChoice [.atom (.literal ['('])] ∧ Node.bars [.atom (.literal ['('])] = 0 ∧
      Node.WellFormedAll [.atom (.literal ['('])] :=
    ⟨by simp [Node.NoChoice, Node.kind, Atom.kind], rfl, Node.wellFormedAll_singleton.2 hliteral⟩
  have hconditional : (Node.group .conditional
      [.ifThenElse [.bar 0] [.atom (.literal ['('])] []]).WellFormed :=
    ⟨trivial, ⟨_, rfl, rfl⟩, Node.wellFormedAll_singleton.2
      ⟨hcondition, hyes, by simp [Node.NoChoice], rfl, trivial⟩⟩
  have hstar : (Node.atom (.special "* (zero or more times)".toList)).WellFormed :=
    ⟨.repetition .zeroOrMore false, trivial, rfl⟩
  obtain ⟨e, he, htree, -⟩ :=
    explain_spellAll hplain
      ⟨hconditional, by simp [Node.isGreedy], Node.wellFormedAll_singleton.2 hstar⟩
  exact ⟨e, he, htree⟩

end RegexGloss
