import RegexGloss.Proofs.Construct.Faults
import RegexGloss.Proofs.Construct.Inside
import RegexGloss.Proofs.Index.Nesting

/-!
# Explaining a part of a pattern

The glyphs that an entry covers can be explained by themselves, unless the entry is that of a
choice, which is no whole group. Nothing changes by that: the entries are those inside the entry,
and the tree is what the entry stands for, each at its distance from the start of the entry
(`Explanation.Restricts`).

Main statement: `explain_slice`.
-/

namespace RegexGloss

/-! ## Nodes of a tree -/

namespace Node

/-- The lists of nodes that a node is made of. -/
def bodies : Node → List (List Node)
  | atom _ | bar _ | bare _ => []
  | group _ body => [body]
  | ifThen condition yes => [condition, yes]
  | ifThenElse condition yes no => [condition, yes, no]

/-- A node is one of a tree, at any depth. -/
inductive Occurs (n : Node) : List Node → Prop where
  /-- The node stands outside of all groups. -/
  | here {ns : List Node} (h : n ∈ ns) : Occurs n ns
  /-- The node is in the body of another one. -/
  | inside {m : Node} {body ns : List Node} (hm : m ∈ ns) (hbody : body ∈ m.bodies)
    (h : Occurs n body) : Occurs n ns

/-- A choice keeps all nodes of its branches except for the bar between them. -/
theorem exists_mem_bodies_choose (condition : List Node) {branches : List Node} {m : Node}
    (hm : m ∈ branches) (hbar : m.bar? = none) :
    ∃ body ∈ (choose condition branches).bodies, m ∈ body := by
  rcases choose_eq_or condition branches with h | ⟨yes, pos, no, rfl, h⟩
  · rw [h]
    exact ⟨branches, by simp [bodies], hm⟩
  · rw [h]
    rw [List.mem_append, List.mem_cons] at hm
    rcases hm with hm | rfl | hm
    · exact ⟨yes, by simp [bodies], hm⟩
    · cases hbar
    · exact ⟨no, by simp [bodies], hm⟩

/-- What occurs in the branches of a choice occurs in it, except for the bar between them. -/
theorem Occurs.choose {n : Node} {branches : List Node} (h : Occurs n branches)
    (hn : n.kind ≠ .alternation) (condition : List Node) :
    Occurs n [.choose condition branches] := by
  cases h with
  | here hmem =>
    have hbar : n.bar? = none := by
      cases n with
      | bar pos => exact absurd rfl hn
      | _ => rfl
    obtain ⟨body, hbody, hn⟩ := exists_mem_bodies_choose condition hmem hbar
    exact .inside List.mem_cons_self hbody (.here hn)
  | @inside m inner _ hm hinner h =>
    -- the node around it is no bar, because a bar has no body
    have hbar : m.bar? = none := by
      cases m with
      | bar pos => cases hinner
      | _ => rfl
    obtain ⟨body, hbody, hm⟩ := exists_mem_bodies_choose condition hm hbar
    exact .inside List.mem_cons_self hbody (.inside hm hinner h)

theorem condition_mem_bodies_choose (condition branches : List Node) :
    condition ∈ (choose condition branches).bodies := by
  rcases choose_eq_or condition branches with h | ⟨yes, pos, no, -, h⟩
  · rw [h]
    exact List.mem_cons_self
  · rw [h]
    exact List.mem_cons_self

end Node

/-! ## What an entry stands for -/

namespace Span

/-- The glyphs of a pattern that a span covers. -/
def slice (s : Span) (pattern : Text) : Text := (pattern.drop s.start).take s.width

/-- Whether an entry stands for a node that takes up the glyphs from `start` to `stop`: the entry is
that of the node, or the run that the literal is part of. -/
def standsFor (s : Span) (n : Node) (start stop : Nat) : Bool :=
  if n.isLiteral then s.kind == .literal && s.start ≤ start && stop ≤ s.stop
  else s == .ofNode n start stop

/-- An entry stands only for nodes inside of it, and only for one that takes up all of it unless it
is a run. -/
theorem ends_of_standsFor {s : Span} {n : Node} {start stop : Nat}
    (h : s.standsFor n start stop = true) :
    s.start ≤ start ∧ stop ≤ s.stop ∧ (s.kind ≠ .literal → s.start = start) := by
  unfold standsFor at h
  split at h
  · simp only [Bool.and_eq_true, beq_iff_eq, decide_eq_true_eq] at h
    obtain ⟨⟨hkind, hstart⟩, hstop⟩ := h
    exact ⟨hstart, hstop, fun hne => absurd hkind hne⟩
  · rw [beq_iff_eq] at h
    subst h
    exact ⟨Nat.le_refl _, Nat.le_refl _, fun _ => rfl⟩

/-- The entry of a node that is no literal stands for it. -/
theorem standsFor_ofNode {n : Node} (h : n.kind ≠ .literal) (start stop : Nat) :
    (ofNode n start stop).standsFor n start stop = true := by
  have hliteral : n.isLiteral = false := by
    rw [Node.isLiteral_eq_kind]
    simpa using h
  rw [standsFor, hliteral]
  simp

/-- A run stands for the literals inside of it. -/
theorem standsFor_literal {s : Span} (hkind : s.kind = .literal) (l : Literal) {start stop : Nat}
    (hstart : s.start ≤ start) (hstop : stop ≤ s.stop) :
    s.standsFor l.node start stop = true := by
  have hliteral : l.node.isLiteral = true := rfl
  rw [standsFor, if_pos hliteral, hkind]
  simp [hstart, hstop]

end Span

/-- The node of a mark, if an entry stands for it. -/
def Mark.nodeIn? (s : Span) : Mark → Option Node
  | .node n start stop => if s.standsFor n start stop then some n else none
  | .gap => none

/-- The nodes that an entry stands for, in the order of their marks. -/
def Mark.nodesIn (s : Span) (marks : List Mark) : List Node := marks.reverse.filterMap (nodeIn? s)

namespace Mark

variable {s : Span} {first bound : Nat} {marks : List Mark}

theorem nodesIn_append (s : Span) (later earlier : List Mark) :
    nodesIn s (later ++ earlier) = nodesIn s earlier ++ nodesIn s later := by
  rw [nodesIn, List.reverse_append, List.filterMap_append]
  rfl

theorem nodesIn_cons (s : Span) (m : Mark) (marks : List Mark) :
    nodesIn s (m :: marks) = nodesIn s marks ++ nodesIn s [m] :=
  nodesIn_append s [m] marks

@[simp]
theorem nodesIn_gap (s : Span) : nodesIn s [.gap] = [] := rfl

theorem nodesIn_of_standsFor {n : Node} {start stop : Nat} (h : s.standsFor n start stop = true) :
    nodesIn s [.node n start stop] = [n] := by
  simp [nodesIn, nodeIn?, h]

/-- An entry stands for no nodes if it does so for none of them. -/
theorem nodesIn_eq_nil
    (h : ∀ n start stop, .node n start stop ∈ marks → s.standsFor n start stop = false) :
    nodesIn s marks = [] := by
  rw [nodesIn, List.filterMap_eq_nil_iff]
  intro m hm
  cases m with
  | node n start stop => rw [nodeIn?, h n start stop (List.mem_reverse.1 hm), if_neg (by simp)]
  | gap => rfl

/-- An entry stands for no node that starts before it. -/
theorem nodesIn_of_lt {n : Node} {start stop : Nat} (h : start < s.start) :
    nodesIn s [.node n start stop] = [] := by
  refine nodesIn_eq_nil fun n' start' stop' hm => Bool.eq_false_iff.2 fun hstands => ?_
  cases List.mem_singleton.1 hm
  have := (Span.ends_of_standsFor hstands).1
  omega

/-- An entry stands for no node between two places that it does not reach. -/
theorem nodesIn_of_between (hmarks : ∀ m ∈ marks, m.Between first bound)
    (h : s.stop < first ∨ bound ≤ s.start) : nodesIn s marks = [] := by
  refine nodesIn_eq_nil fun n start stop hm => Bool.eq_false_iff.2 fun hstands => ?_
  obtain ⟨hfirst, hle, hbound⟩ := hmarks _ hm
  obtain ⟨hstart, hstop, -⟩ := Span.ends_of_standsFor hstands
  omega

/-- An entry that is no run stands for no node that starts behind its first glyph. -/
theorem nodesIn_of_kind_ne (hkind : s.kind ≠ .literal)
    (hmarks : ∀ m ∈ marks, m.Between first bound) (h : s.start < first) : nodesIn s marks = [] := by
  refine nodesIn_eq_nil fun n start stop hm => Bool.eq_false_iff.2 fun hstands => ?_
  obtain ⟨hfirst, -, -⟩ := hmarks _ hm
  obtain ⟨-, -, hstart⟩ := Span.ends_of_standsFor hstands
  have := hstart hkind
  omega

end Mark

/-- A run stands for the literals inside of it, one by one. -/
theorem Literal.nodesIn_marksAll {s : Span} (hkind : s.kind = .literal) {offset : Nat}
    {ls : List Literal} (hstart : s.start ≤ offset) (hstop : offset + widthAll ls ≤ s.stop + 1) :
    Mark.nodesIn s (marksAll offset ls) = ls.map node := by
  induction ls generalizing offset with
  | nil => rfl
  | cons l ls ih =>
    rw [widthAll_cons] at hstop
    rw [marksAll, Mark.nodesIn_append, ih (by omega) (by rw [width]; omega),
      Mark.nodesIn_of_standsFor (Span.standsFor_literal hkind l hstart (by omega))]
    rfl

namespace Construct

/-! ## The entries and nodes of one construct -/

/-- The entry of a construct as a whole stands for its nodes. -/
theorem nodesIn_marks (o : Options) (place : Nat) {c : Construct} (hc : c.Proper) {s : Span}
    (hs : c.span? o place = some s) : Mark.nodesIn s (c.marks o place) = c.nodes o place := by
  have hstart := (ends_of_span?_eq_some hs).1
  cases c with
  | skipped comment extra => cases hs
  | run first more =>
    cases hs
    refine Literal.nodesIn_marksAll rfl (Nat.le_refl _) ?_
    simp only [Literal.widthAll_cons]
    omega
  | atom a extra =>
    cases hs
    exact Mark.nodesIn_of_standsFor (Span.standsFor_ofNode (n := .atom a) hc _ _)
  | bar =>
    cases hs
    exact Mark.nodesIn_of_standsFor (Span.standsFor_ofNode (by simp [Node.kind]) _ _)
  | bare kind extra =>
    cases hs
    rw [marks, Mark.nodesIn_cons, Mark.nodesIn_gap, List.nil_append]
    exact Mark.nodesIn_of_standsFor (Span.standsFor_ofNode (by simp [Node.kind]) _ _)
  | group heading extra body =>
    cases hs
    -- the body starts behind the parenthesis, so no entry of a group stands for a part of it
    rw [marks, Mark.nodesIn_cons, Mark.nodesIn_append, Mark.nodesIn_gap, List.nil_append,
      Mark.nodesIn_of_kind_ne (by simp [Span.ofNode, groupNode, Node.kind])
        (between_of_mem_marksAll o _ body) (by simp only [Span.ofNode]; omega),
      List.nil_append, nodes_group]
    exact Mark.nodesIn_of_standsFor (Span.standsFor_ofNode (by simp [groupNode, Node.kind]) _ _)
  | conditional condition branches =>
    have hkind : s.kind ≠ .literal := by
      cases hs
      simp [Span.ofNode, Node.kind]
    -- the condition, the branches and the choice start behind the group
    have hcondition : Mark.nodesIn s (marksAll o (place + 3) condition) = [] :=
      Mark.nodesIn_of_kind_ne hkind (between_of_mem_marksAll o _ condition) (by omega)
    have hbranches :
        Mark.nodesIn s (marksAll o (place + 4 + widthAll condition) branches) = [] :=
      Mark.nodesIn_of_kind_ne hkind (between_of_mem_marksAll o _ branches) (by omega)
    have hchoice (n : Node) (stop : Nat) : Mark.nodesIn s [.node n (place + 2) stop] = [] := by
      refine Mark.nodesIn_eq_nil fun n' start' stop' hm => Bool.eq_false_iff.2 fun hstands => ?_
      cases List.mem_singleton.1 hm
      have := (Span.ends_of_standsFor hstands).2.2 hkind
      omega
    cases hs
    rw [marks, Mark.nodesIn_cons, Mark.nodesIn_cons, hchoice, Mark.nodesIn_append,
      Mark.nodesIn_cons _ .gap, Mark.nodesIn_append, hcondition, hbranches, nodes_conditional]
    exact Mark.nodesIn_of_standsFor (Span.standsFor_ofNode (by simp [Node.kind]) _ _)

/-- What a construct adds to a tree: literals for a run, and one node for any other entry. -/
theorem nodes_of_span?_eq_some {o : Options} {place : Nat} {c : Construct} (hc : c.Proper)
    {s : Span} (hs : c.span? o place = some s) :
    (s.kind = .literal → ∃ texts : List Text,
      c.nodes o place = texts.map (fun text => .atom (.literal text)) ∧ texts.flatten = s.text) ∧
    (s.kind ≠ .literal → ∃ n, c.nodes o place = [n] ∧ n.kind = s.kind ∧ n.describe = s.text) := by
  cases c with
  | skipped comment extra => cases hs
  | run first more =>
    cases hs
    refine ⟨fun _ => ⟨(first :: more).map Literal.text, ?_, rfl⟩, fun hne => absurd rfl hne⟩
    rw [nodes, List.map_map]
    rfl
  | atom a extra =>
    cases hs
    exact ⟨fun heq => absurd heq hc, fun _ => ⟨_, rfl, rfl, rfl⟩⟩
  | bar =>
    cases hs
    exact ⟨nofun, fun _ => ⟨_, rfl, rfl, rfl⟩⟩
  | bare kind extra =>
    cases hs
    exact ⟨nofun, fun _ => ⟨_, rfl, rfl, rfl⟩⟩
  | group heading extra body =>
    cases hs
    exact ⟨nofun, fun _ => ⟨_, rfl, rfl, rfl⟩⟩
  | conditional condition branches =>
    cases hs
    exact ⟨nofun, fun _ => ⟨_, rfl, rfl, rfl⟩⟩

/-! ## The entries and nodes around a construct -/

/-- No entry lies inside a span that its constructs do not reach. -/
theorem filter_spansAll_eq_nil (o : Options) {offset : Nat} {cs : List Construct} {s : Span}
    (h : s.stop < offset ∨ offset + widthAll cs ≤ s.start) :
    (spansAll o offset cs).filter (·.Within s) = [] := by
  rw [List.filter_eq_nil_iff]
  intro t ht hwithin
  obtain ⟨hfirst, hle, hbound⟩ := between_of_mem_spansAll o offset cs t ht
  obtain ⟨hstart, hstop⟩ := of_decide_eq_true hwithin
  omega

/-- Entries that start before a span do not lie inside it. -/
theorem filter_of_lt {s : Span} {ts : List Span} (h : ∀ t ∈ ts, t.start < s.start) :
    ts.filter (·.Within s) = [] := by
  rw [List.filter_eq_nil_iff]
  intro t ht hwithin
  have hlt := h t ht
  have hle := (of_decide_eq_true hwithin).1
  omega

/-- An entry behind the start of a condition stands for nodes of the condition and the branches. -/
theorem nodesIn_marks_conditional (o : Options) {offset : Nat} {condition branches : List Construct}
    {s : Span} (h : offset + 2 < s.start) :
    Mark.nodesIn s ((conditional condition branches).marks o offset) =
      Mark.nodesIn s (marksAll o (offset + 3) condition) ++
        Mark.nodesIn s (marksAll o (offset + 4 + widthAll condition) branches) := by
  rw [marks, Mark.nodesIn_cons, Mark.nodesIn_cons, Mark.nodesIn_append, Mark.nodesIn_cons _ .gap,
    Mark.nodesIn_append, Mark.nodesIn_gap, Mark.nodesIn_of_lt h, Mark.nodesIn_of_lt (by omega),
    List.nil_append, List.append_nil, List.append_nil, List.append_nil]

namespace Inside

variable {c : Construct} {place offset : Nat} {cs : List Construct} {s : Span}

/-- The entries inside that of a construct as a whole are its own. -/
theorem filter_spansAll (h : Inside c place offset cs) (o : Options)
    (hs : c.span? o place = some s) :
    (spansAll o offset cs).filter (·.Within s) = c.spans o place := by
  obtain ⟨hstart, hstop⟩ := ends_of_span?_eq_some hs
  have hpos := c.width_pos
  induction h with
  | @here before offset after h =>
    -- the entries of the construct are kept, and those of its neighbours are not
    have hown : (c.spans o place).filter (·.Within s) = c.spans o place := by
      rw [List.filter_eq_self]
      intro t ht
      obtain ⟨hfirst, hle, hbound⟩ := between_of_mem_spans o place c t ht
      exact decide_eq_true ⟨by omega, by omega⟩
    rw [spansAll_append, spansAll_cons, h, List.filter_append, List.filter_append,
      filter_spansAll_eq_nil o (by omega), filter_spansAll_eq_nil o (by omega), hown,
      List.nil_append, List.append_nil]
  | @group before offset after body heading extra h ih =>
    -- the group itself starts before its body, and so before the entry
    have hbounds := h.bounds
    rw [spansAll_append, spansAll_cons, spans, List.filter_append, List.filter_append,
      List.filter_append, ih, filter_spansAll_eq_nil o (by omega),
      filter_of_lt (by simp only [List.mem_singleton, forall_eq, Span.ofNode]; omega),
      filter_spansAll_eq_nil o (by rw [width_group]; omega), List.nil_append, List.append_nil,
      List.append_nil]
  | @condition before offset after condition branches h ih =>
    have hbounds := h.bounds
    rw [spansAll_append, spansAll_cons, spans, List.filter_append, List.filter_append,
      List.filter_append, List.filter_append, ih, filter_spansAll_eq_nil o (by omega),
      filter_spansAll_eq_nil o (by omega), filter_of_lt ?_,
      filter_spansAll_eq_nil o (by rw [width_conditional]; omega), List.nil_append,
      List.append_nil, List.append_nil, List.append_nil]
    simp only [List.mem_cons, List.not_mem_nil, or_false, forall_eq_or_imp, forall_eq, Span.ofNode]
    omega
  | @branches before offset after condition branches h ih =>
    have hbounds := h.bounds
    rw [spansAll_append, spansAll_cons, spans, List.filter_append, List.filter_append,
      List.filter_append, List.filter_append, ih, filter_spansAll_eq_nil o (by omega),
      filter_spansAll_eq_nil o (by omega), filter_of_lt ?_,
      filter_spansAll_eq_nil o (by rw [width_conditional]; omega), List.nil_append,
      List.nil_append, List.append_nil, List.append_nil]
    simp only [List.mem_cons, List.not_mem_nil, or_false, forall_eq_or_imp, forall_eq, Span.ofNode]
    omega

/-- The nodes that the entry of a construct as a whole stands for are found in its own marks. -/
theorem nodesIn_marksAll (h : Inside c place offset cs) (o : Options)
    (hs : c.span? o place = some s) :
    Mark.nodesIn s (marksAll o offset cs) = Mark.nodesIn s (c.marks o place) := by
  obtain ⟨hstart, hstop⟩ := ends_of_span?_eq_some hs
  have hpos := c.width_pos
  -- what the entry does not reach has no part in it
  have hnil {offset : Nat} {cs : List Construct}
      (h : s.stop < offset ∨ offset + widthAll cs ≤ s.start) :
      Mark.nodesIn s (marksAll o offset cs) = [] :=
    Mark.nodesIn_of_between (between_of_mem_marksAll o offset cs) h
  induction h with
  | @here before offset after h =>
    rw [marksAll_append, marksAll_cons, h, Mark.nodesIn_append, Mark.nodesIn_append,
      hnil (by omega), hnil (by omega), List.nil_append, List.append_nil]
  | @group before offset after body heading extra h ih =>
    have hbounds := h.bounds
    rw [marksAll_append, marksAll_cons, marks, Mark.nodesIn_append, Mark.nodesIn_append,
      Mark.nodesIn_cons, Mark.nodesIn_append, ih, Mark.nodesIn_gap, hnil (by omega),
      Mark.nodesIn_of_lt (by omega), hnil (by rw [width_group]; omega), List.nil_append,
      List.nil_append, List.append_nil, List.append_nil]
  | @condition before offset after condition branches h ih =>
    have hbounds := h.bounds
    rw [marksAll_append, marksAll_cons, Mark.nodesIn_append, Mark.nodesIn_append,
      nodesIn_marks_conditional o (by omega), ih, hnil (by omega), hnil (by omega),
      hnil (by rw [width_conditional]; omega), List.nil_append, List.append_nil, List.append_nil]
  | @branches before offset after condition branches h ih =>
    have hbounds := h.bounds
    rw [marksAll_append, marksAll_cons, Mark.nodesIn_append, Mark.nodesIn_append,
      nodesIn_marks_conditional o (by omega), ih, hnil (by omega), hnil (by omega),
      hnil (by rw [width_conditional]; omega), List.nil_append, List.nil_append, List.append_nil]

/-- The nodes of a construct occur in the tree around it, unless it is a bar. -/
theorem occurs (h : Inside c place offset cs) (o : Options) {n : Node}
    (hn : n ∈ c.nodes o place) (hkind : n.kind ≠ .alternation) :
    Node.Occurs n (nodesAll o offset cs) := by
  induction h with
  | @here before offset after h =>
    rw [nodesAll_append, nodesAll_cons, h]
    exact .here (List.mem_append_right _ (List.mem_append_left _ hn))
  | @group before offset after body heading extra h ih =>
    rw [nodesAll_append, nodesAll_cons, nodes_group]
    exact .inside (List.mem_append_right _ List.mem_cons_self) (List.mem_singleton_self _) ih
  | @condition before offset after condition branches h ih =>
    rw [nodesAll_append, nodesAll_cons, nodes_conditional]
    refine .inside (List.mem_append_right _ List.mem_cons_self) (List.mem_singleton_self _) ?_
    exact .inside List.mem_cons_self (Node.condition_mem_bodies_choose _ _) ih
  | @branches before offset after condition branches h ih =>
    rw [nodesAll_append, nodesAll_cons, nodes_conditional]
    -- the choice leaves out its first bar, and nothing else
    refine .inside (List.mem_append_right _ List.mem_cons_self) (List.mem_singleton_self _) ?_
    exact ih.choose hkind _

end Inside

end Construct

/-! ## Explaining a part -/

/-- How the explanation of the glyphs that an entry covers fits that of the whole pattern, in which
the entry stands for the nodes `ns`. -/
structure Explanation.Restricts (part whole : Explanation) (s : Span) (ns : List Node) : Prop where
  /-- The entries of the part are those of the whole that lie inside the entry. -/
  entries_eq : part.index.entries.map (Span.shift s.start) =
    whole.index.entries.filter (·.Within s)
  /-- The last entry of the part is that of the whole, and covers all of the part. -/
  last_eq : part.index.entries.getLast? = some ⟨s.kind, 0, s.stop - s.start, s.text⟩
  /-- The tree of the part is what the entry stands for. -/
  tree_eq : Node.shiftAll s.start part.tree = ns
  /-- What the entry stands for is in the tree of the whole. Only a bar may be missing there,
  because the one between the branches of a conditional is left out. -/
  occurs : ∀ n ∈ ns, n.kind ≠ .alternation → Node.Occurs n whole.tree
  /-- A run stands for its literals. -/
  literals : s.kind = .literal → ∃ texts : List Text,
    part.tree = texts.map (fun text => .atom (.literal text)) ∧ texts.flatten = s.text
  /-- Any other entry stands for one node, which is described by its text. -/
  single : s.kind ≠ .literal → ∃ n, part.tree = [n] ∧ n.kind = s.kind ∧ n.describe = s.text

open Construct

/-- The explanation of one construct by itself fits that of the constructs around it. -/
theorem Construct.restricts_explanation {o : Options} {cs : List Construct} (hcs : ProperAll cs)
    {c : Construct} {place : Nat} (hinside : Inside c place 0 cs) {s : Span}
    (hspan : c.span? o place = some s) :
    (explanation o [c]).Restricts (explanation o cs) s (c.nodes o place) := by
  obtain ⟨hstart, -⟩ := ends_of_span?_eq_some hspan
  have hproper := hinside.proper hcs
  have hnodes : (explanation o [c]).tree = c.nodes o 0 := List.append_nil _
  have hspans : (explanation o [c]).index.entries = c.spans o 0 := by
    rw [entries_explanation o (properAll_singleton hproper), spansAll_cons, spansAll_nil,
      List.append_nil]
  have hshift : (c.spans o 0).map (Span.shift s.start) = c.spans o place := by
    rw [hstart, ← spans_add, Nat.zero_add]
  -- the entry of the construct by itself is the entry at its place, shifted to the start
  obtain ⟨t, ht, hts⟩ : ∃ t, c.span? o 0 = some t ∧ t.shift s.start = s := by
    rw [← getLast?_spans, ← hshift, List.getLast?_map, Option.map_eq_some_iff] at hspan
    rwa [getLast?_spans] at hspan
  have htstart := (ends_of_span?_eq_some ht).1
  have hkind : t.kind = s.kind := show (t.shift s.start).kind = s.kind by rw [hts]
  have htext : t.text = s.text := show (t.shift s.start).text = s.text by rw [hts]
  obtain ⟨hliterals, hsingle⟩ := nodes_of_span?_eq_some hproper ht
  rw [hkind, htext] at hliterals hsingle
  refine ⟨?_, ?_, ?_, ?_, ?_, ?_⟩
  · rw [hspans, hshift, entries_explanation o hcs, hinside.filter_spansAll o hspan]
  · have hstop : t.stop + s.start = s.stop := show (t.shift s.start).stop = s.stop by rw [hts]
    rw [hspans, getLast?_spans, ht, ← hkind, ← htext, ← hstop, Nat.add_sub_cancel, ← htstart]
  · rw [hnodes, hstart, ← nodes_add, Nat.zero_add]
  · exact fun n hn hbar => hinside.occurs o hn hbar
  · rwa [hnodes]
  · rwa [hnodes]

/-- The glyphs that an entry covers are explained by themselves as they are in the whole pattern,
unless the entry is that of a conditional. -/
theorem explain_slice {pattern : Text} {o : Options} {e : Explanation}
    (h : explain pattern o = .ok e) {s : Span} (hs : s ∈ e.index.entries)
    (hkind : s.kind ≠ .conditional) :
    ∃ d a, explain (s.slice pattern) o = .ok d ∧ (s.slice pattern).length = s.width ∧
      Assembly.assemble o 0 (Lexeme.lex o.ignoreWhitespace pattern) = .ok a ∧
      d.Restricts e s (Mark.nodesIn s a.marks) := by
  obtain ⟨cs, hcs, rfl⟩ := explain_eq_ok_iff.1 h
  rw [entries_explanation o hcs.proper] at hs
  obtain ⟨c, place, hinside, hspan⟩ := exists_inside_of_mem_spansAll o 0 cs s hs hkind
  obtain ⟨hstart, hstop⟩ := ends_of_span?_eq_some hspan
  have hproper := hinside.proper hcs.proper
  have hwidth : s.width = c.width := by
    rw [Span.width]
    omega
  -- the slice has the tokens of the construct
  obtain ⟨before, after, hlexemes, hplace⟩ := hinside.exists_lexemesAll_eq
  have hslice : Lexeme.lex o.ignoreWhitespace (s.slice pattern) = c.lexemes := by
    rw [Span.slice, hwidth, hstart, ← hplace, Nat.zero_add]
    rw [hcs.lexemesAll_eq] at hlexemes
    exact Lexeme.lex_slice hlexemes
      (Assembly.isFault_of_run (Assembly.run_lexemes o { offset := 0 } c hproper))
  have hforms : Forms [c] o (s.slice pattern) := by
    refine ⟨properAll_singleton hproper, ?_⟩
    rw [hslice, lexemesAll_cons, lexemesAll_nil, List.append_nil]
  refine ⟨explanation o [c], _, explain_eq_ok_iff.2 ⟨[c], hforms, rfl⟩, ?_,
    assemble_lex_eq_ok_iff.2 ⟨cs, hcs, rfl⟩, ?_⟩
  · rw [← hforms.widthAll_eq, widthAll_cons, widthAll_nil, Nat.add_zero, hwidth]
  · have hmarks : (Assembly.extend o { offset := 0 } cs).marks = marksAll o 0 cs :=
      List.append_nil _
    rw [hmarks, hinside.nodesIn_marksAll o hspan, nodesIn_marks o place hproper hspan]
    exact restricts_explanation hcs.proper hinside hspan

theorem explain_slice_group :
    ∃ e d ns, explain ['x', '(', 'a', ')'] {} = .ok e ∧ explain ['(', 'a', ')'] {} = .ok d ∧
      d.Restricts e (.ofNode (.group .capture [.atom (.literal ['a'])]) 1 3) ns := by
  obtain ⟨e, he, hs⟩ : ∃ e, explain ['x', '(', 'a', ')'] {} = .ok e ∧
      .ofNode (.group .capture [.atom (.literal ['a'])]) 1 3 ∈ e.index.entries :=
    ⟨_, rfl, by decide⟩
  obtain ⟨d, a, hd, -, -, hrestricts⟩ := explain_slice he hs (by decide)
  exact ⟨e, d, _, he, hd, hrestricts⟩

end RegexGloss
