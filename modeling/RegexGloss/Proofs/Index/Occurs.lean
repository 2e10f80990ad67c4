import RegexGloss.Proofs.Index.Slices

/-!
# What occurs in a tree

Every atom among the tokens of constructs is a node of their tree, at some depth, and so is every
node that they mark (`Construct.occurs_of_mem_lexemesAll`, `Construct.occurs_of_mem_marksAll`). Only
a bar may be missing, because the one between the branches of a conditional is left out.
-/

namespace RegexGloss

namespace Node

theorem Occurs.mono {n : Node} {ms ns : List Node} (h : Occurs n ms) (hms : ∀ m ∈ ms, m ∈ ns) :
    Occurs n ns := by
  cases h with
  | here hn => exact .here (hms n hn)
  | inside hm hbody h => exact .inside (hms _ hm) hbody h

/-- What occurs in the branches of a choice or in its condition occurs in the group around it. -/
theorem Occurs.conditional {n : Node} (hn : n.kind ≠ .alternation) {condition branches : List Node}
    (h : Occurs n condition ∨ Occurs n branches) :
    Occurs n [.group .conditional [.choose condition branches]] := by
  refine .inside List.mem_cons_self (List.mem_singleton_self _) ?_
  rcases h with h | h
  · exact .inside List.mem_cons_self (condition_mem_bodies_choose _ _) h
  · exact h.choose hn condition

end Node

namespace Construct

/-! ## Tokens of atoms -/

mutual

/-- An atom among the tokens of a construct is one of its nodes, or inside of them. -/
theorem occurs_of_mem_lexemes (o : Options) {a : Atom} {width : Nat} (offset : Nat) :
    (c : Construct) → ⟨.atom a, width⟩ ∈ c.lexemes → Node.Occurs (.atom a) (c.nodes o offset)
  | .skipped comment extra, h => by cases comment <;> simp [lexemes] at h
  | .run first more, h => by
    obtain ⟨l, hl, heq⟩ := List.mem_map.1 h
    cases heq
    exact .here (List.mem_map.2 ⟨l, hl, rfl⟩)
  | .atom b extra, h => by
    rw [lexemes, List.mem_singleton] at h
    cases h
    exact .here List.mem_cons_self
  | .bar, h => by simp [lexemes] at h
  | .bare kind extra, h => by simp [lexemes] at h
  | .group heading extra body, h => by
    have hbody : ⟨.atom a, width⟩ ∈ lexemesAll body := by
      cases heading <;> simpa [lexemes, opening, closing] using h
    exact .inside List.mem_cons_self (List.mem_singleton_self _)
      (occurs_of_mem_lexemesAll o _ body hbody)
  | .conditional condition branches, h => by
    have hparts : ⟨.atom a, width⟩ ∈ lexemesAll condition ∨
        ⟨.atom a, width⟩ ∈ lexemesAll branches := by
      simpa [lexemes, openingCondition, closing] using h
    have hkind : (Node.atom a).kind ≠ .alternation := by cases a <;> exact nofun
    rw [nodes_conditional]
    refine Node.Occurs.conditional hkind ?_
    exact hparts.imp (occurs_of_mem_lexemesAll o _ condition)
      (occurs_of_mem_lexemesAll o _ branches)

/-- An atom among the tokens of constructs is one of their nodes, or inside of them. -/
theorem occurs_of_mem_lexemesAll (o : Options) {a : Atom} {width : Nat} (offset : Nat) :
    (cs : List Construct) → ⟨.atom a, width⟩ ∈ lexemesAll cs →
      Node.Occurs (.atom a) (nodesAll o offset cs)
  | [], h => by cases h
  | c :: cs, h => by
    rw [nodesAll_cons]
    rcases List.mem_append.1 h with h | h
    · exact (occurs_of_mem_lexemes o offset c h).mono fun m => List.mem_append_left _
    · exact (occurs_of_mem_lexemesAll o _ cs h).mono fun m => List.mem_append_right _

end

/-! ## Marked nodes -/

/-- What literals mark are their nodes. -/
theorem Literal.mem_map_node_of_mem_marksAll {n : Node} {start stop : Nat} (ls : List Literal)
    {offset : Nat} (h : .node n start stop ∈ Literal.marksAll offset ls) :
    n ∈ ls.map Literal.node := by
  induction ls generalizing offset with
  | nil => cases h
  | cons l ls ih =>
    rw [Literal.marksAll, List.mem_append, List.mem_singleton] at h
    rcases h with h | h
    · exact List.mem_cons_of_mem _ (ih h)
    · obtain ⟨rfl, -, -⟩ := Mark.node.inj h
      exact List.mem_cons_self

mutual

/-- A node that a construct marks is one of its nodes, or inside of them. -/
theorem occurs_of_mem_marks (o : Options) {n : Node} {start stop : Nat}
    (hn : n.kind ≠ .alternation) (offset : Nat) :
    (c : Construct) → .node n start stop ∈ c.marks o offset → Node.Occurs n (c.nodes o offset)
  | .skipped _ _, h => by simp [marks] at h
  | .run first more, h => .here (Literal.mem_map_node_of_mem_marksAll _ h)
  | .atom a extra, h => by
    rw [marks, List.mem_singleton] at h
    obtain ⟨rfl, -, -⟩ := Mark.node.inj h
    exact .here List.mem_cons_self
  | .bar, h => by
    rw [marks, List.mem_singleton] at h
    obtain ⟨rfl, -, -⟩ := Mark.node.inj h
    exact absurd rfl hn
  | .bare kind extra, h => by
    simp only [marks, List.mem_cons, reduceCtorEq, List.not_mem_nil, or_false] at h
    obtain ⟨rfl, -, -⟩ := Mark.node.inj h
    exact .here List.mem_cons_self
  | .group heading extra body, h => by
    simp only [marks, List.mem_cons, List.mem_append, reduceCtorEq, List.not_mem_nil,
      or_false] at h
    rcases h with h | h
    · obtain ⟨rfl, -, -⟩ := Mark.node.inj h
      exact .here List.mem_cons_self
    · exact .inside List.mem_cons_self (List.mem_singleton_self _)
        (occurs_of_mem_marksAll o hn _ body h)
  | .conditional condition branches, h => by
    have hgroup : Node.group .conditional [choiceNode o offset condition branches] ∈
        (conditional condition branches).nodes o offset := List.mem_cons_self
    have hchoice := List.mem_singleton_self [choiceNode o offset condition branches]
    simp only [marks, List.mem_cons, List.mem_append, reduceCtorEq, List.not_mem_nil,
      or_false, false_or] at h
    rcases h with h | h | h | h
    · obtain ⟨rfl, -, -⟩ := Mark.node.inj h
      exact .here hgroup
    · obtain ⟨rfl, -, -⟩ := Mark.node.inj h
      exact .inside hgroup hchoice (.here List.mem_cons_self)
    · exact .conditional hn (.inr (occurs_of_mem_marksAll o hn _ branches h))
    · exact .conditional hn (.inl (occurs_of_mem_marksAll o hn _ condition h))

/-- A node that constructs mark is one of their nodes, or inside of them. -/
theorem occurs_of_mem_marksAll (o : Options) {n : Node} {start stop : Nat}
    (hn : n.kind ≠ .alternation) (offset : Nat) :
    (cs : List Construct) → .node n start stop ∈ marksAll o offset cs →
      Node.Occurs n (nodesAll o offset cs)
  | [], h => by cases h
  | c :: cs, h => by
    rw [marksAll_cons, List.mem_append] at h
    rw [nodesAll_cons]
    rcases h with h | h
    · exact (occurs_of_mem_marksAll o hn _ cs h).mono fun m => List.mem_append_right _
    · exact (occurs_of_mem_marks o hn offset c h).mono fun m => List.mem_append_left _

end

end Construct

end RegexGloss
