import Mathlib.Data.List.Forall2
import RegexGloss.Proofs.Construct.Faults
import RegexGloss.Proofs.Construct.Map
import RegexGloss.Proofs.Index.Occurs
import RegexGloss.Proofs.Token.Valid

/-!
# Plain groups that do not capture

The option that plain parentheses do not capture changes the kinds of plain groups and nothing else.
A pattern is cut into the same tokens with it and without it, so it fails in the same way or is made
up of the same constructs. The nodes of these differ in the kinds of plain groups only, and with
them the texts of the entries of groups and choices around them (`Explanation.Uncaptures`).

Main statement: `explain_explicitCapture`.
-/

namespace RegexGloss

/-- The kind that takes the place of a numbered capture. All other kinds stay. -/
def GroupKind.uncapture : GroupKind → GroupKind
  | capture => nonCapturing
  | kind => kind

namespace Node

/-- A node in which no group is a numbered capture. -/
def uncapture : Node → Node := map GroupKind.uncapture id

/-- Nodes in which no group is a numbered capture. -/
def uncaptureAll : List Node → List Node := mapAll GroupKind.uncapture id

theorem uncaptureAll_append (ms ns : List Node) :
    uncaptureAll (ms ++ ns) = uncaptureAll ms ++ uncaptureAll ns :=
  mapAll_append ..

end Node

namespace Construct

variable (skipping : Bool)

/-! ## Trees -/

/-- An opener is not that of a numbered capture. -/
theorem uncapture_heading {heading : Option GroupKind} {extra : Nat}
    (h : (opening heading extra).token.Sound) :
    heading.getD (Assembly.plainKind ⟨skipping, true⟩) =
      (heading.getD (Assembly.plainKind ⟨skipping, false⟩)).uncapture := by
  cases heading with
  | none => rfl
  | some kind =>
    have hcapture : kind ≠ .capture := h.2.1
    cases kind with
    | capture => exact absurd rfl hcapture
    | _ => rfl

mutual

/-- The nodes of a construct differ in the kinds of plain groups only. -/
theorem nodes_explicitCapture (offset : Nat) :
    (c : Construct) → (∀ l ∈ c.lexemes, l.token.Sound) →
      c.nodes ⟨skipping, true⟩ offset = Node.uncaptureAll (c.nodes ⟨skipping, false⟩ offset)
  | .skipped _ _, _ | .atom _ _, _ | .bar, _ => rfl
  | .run first more, _ => by
    rw [nodes, nodes, Node.uncaptureAll, Node.mapAll_eq_map, List.map_map]
    rfl
  | .bare kind extra, h => by
    obtain ⟨list, hkind, -⟩ := h ⟨.bareGroup kind, extra + 1⟩ List.mem_cons_self
    rw [hkind]
    rfl
  | .group heading extra body, h => by
    rw [nodes_group, nodes_group, groupNode, groupNode,
      uncapture_heading skipping (h _ List.mem_cons_self),
      nodesAll_explicitCapture _ body fun l hl => h l (by simp [lexemes, hl])]
    rfl
  | .conditional condition branches, h => by
    rw [nodes_conditional, nodes_conditional, choiceNode, choiceNode,
      nodesAll_explicitCapture _ condition fun l hl => h l (by simp [lexemes, hl]),
      nodesAll_explicitCapture _ branches fun l hl => h l (by simp [lexemes, hl]),
      Node.uncaptureAll, ← Node.map_choose]
    rfl

/-- The nodes of constructs differ in the kinds of plain groups only. -/
theorem nodesAll_explicitCapture (offset : Nat) :
    (cs : List Construct) → (∀ l ∈ lexemesAll cs, l.token.Sound) →
      nodesAll ⟨skipping, true⟩ offset cs =
        Node.uncaptureAll (nodesAll ⟨skipping, false⟩ offset cs)
  | [], _ => rfl
  | c :: cs, h => by
    rw [nodesAll_cons, nodesAll_cons, Node.uncaptureAll_append,
      nodes_explicitCapture offset c fun l hl => h l (List.mem_append_left _ hl),
      nodesAll_explicitCapture _ cs fun l hl => h l (List.mem_append_right _ hl)]

end

theorem groupNode_explicitCapture (offset : Nat) {heading : Option GroupKind} {extra : Nat}
    {body : List Construct} (h : ∀ l ∈ (group heading extra body).lexemes, l.token.Sound) :
    groupNode ⟨skipping, true⟩ offset heading extra body =
      (groupNode ⟨skipping, false⟩ offset heading extra body).uncapture :=
  (List.cons.inj (nodes_explicitCapture skipping offset _ h)).1

theorem choiceNode_explicitCapture (offset : Nat) {condition branches : List Construct}
    (h : ∀ l ∈ (conditional condition branches).lexemes, l.token.Sound) :
    choiceNode ⟨skipping, true⟩ offset condition branches =
      (choiceNode ⟨skipping, false⟩ offset condition branches).uncapture :=
  -- the choice is the only node inside the node of its conditional
  (List.cons.inj (Node.group.inj (List.cons.inj
    (nodes_explicitCapture skipping offset _ h)).1).2).1

end Construct

/-! ## Entries -/

/-- How the entries `s` and `t` of one construct differ if numbered captures are taken away. The
entry of a group or a choice has the text of its node, one that was marked, and any other entry
stays as it is. -/
structure Span.Uncaptures (marks : List Mark) (s t : Span) : Prop where
  /-- The constructs are of the same class. -/
  kind_eq : t.kind = s.kind
  /-- The spans start at the same glyph. -/
  start_eq : t.start = s.start
  /-- The spans end at the same glyph. -/
  stop_eq : t.stop = s.stop
  /-- The text of a group or a choice is that of its node without numbered captures. -/
  node : s.kind = .group ∨ s.kind = .conditional → ∃ n, .node n s.start s.stop ∈ marks ∧
    n.kind = s.kind ∧ n.describe = s.text ∧ n.uncapture.describe = t.text
  /-- Any other text stays the same. -/
  text_eq : s.kind ≠ .group → s.kind ≠ .conditional → t.text = s.text

namespace Span.Uncaptures

variable {marks : List Mark}

/-- The entry of a marked node becomes that of the node without numbered captures. -/
theorem ofNode {n : Node} {start stop : Nat} (h : .node n start stop ∈ marks)
    (hn : n.kind = .group ∨ n.kind = .conditional) :
    Span.Uncaptures marks (.ofNode n start stop) (.ofNode n.uncapture start stop) where
  kind_eq := Node.kind_map ..
  start_eq := rfl
  stop_eq := rfl
  node _ := ⟨n, h, rfl, rfl, rfl⟩
  text_eq hgroup hconditional := by
    rcases hn with hn | hn
    · exact absurd hn hgroup
    · exact absurd hn hconditional

theorem refl {s : Span} (hgroup : s.kind ≠ .group) (hconditional : s.kind ≠ .conditional) :
    Span.Uncaptures marks s s where
  kind_eq := rfl
  start_eq := rfl
  stop_eq := rfl
  node h := by
    rcases h with h | h
    · exact absurd h hgroup
    · exact absurd h hconditional
  text_eq _ _ := rfl

end Span.Uncaptures

namespace Construct

mutual

/-- The entries of a construct differ in the texts of groups and choices only. -/
theorem uncaptures_spans (skipping : Bool) {marks : List Mark} (offset : Nat) :
    (c : Construct) → (∀ l ∈ c.lexemes, l.token.Sound) →
      (∀ m ∈ c.marks ⟨skipping, false⟩ offset, m ∈ marks) →
      List.Forall₂ (Span.Uncaptures marks) (c.spans ⟨skipping, false⟩ offset)
        (c.spans ⟨skipping, true⟩ offset)
  | .skipped _ _, _, _ => .nil
  | .run first more, _, _ => .cons (.refl nofun nofun) .nil
  | .atom a extra, _, _ => by
    refine .cons (.refl ?_ ?_) .nil
    · cases a <;> exact nofun
    · cases a <;> exact nofun
  | .bar, _, _ => .cons (.refl nofun nofun) .nil
  | .bare kind extra, h, hmarks => by
    have hspan := Span.Uncaptures.ofNode (hmarks _ List.mem_cons_self) (.inl rfl)
    obtain ⟨list, hkind, -⟩ := h ⟨.bareGroup kind, extra + 1⟩ List.mem_cons_self
    subst hkind
    exact .cons hspan .nil
  | .group heading extra body, h, hmarks => by
    have hbody := uncaptures_spansAll skipping (offset + (extra + 1)) body
      (fun l hl => h l (by simp [lexemes, hl])) fun m hm => hmarks m (by simp [Construct.marks, hm])
    have hspan := Span.Uncaptures.ofNode (hmarks _ List.mem_cons_self) (.inl rfl)
    rw [← groupNode_explicitCapture skipping offset h] at hspan
    exact List.rel_append hbody (.cons hspan .nil)
  | .conditional condition branches, h, hmarks => by
    have hcondition := uncaptures_spansAll skipping (offset + 3) condition
      (fun l hl => h l (by simp [lexemes, hl])) fun m hm => hmarks m (by simp [Construct.marks, hm])
    have hbranches := uncaptures_spansAll skipping (offset + 4 + widthAll condition) branches
      (fun l hl => h l (by simp [lexemes, hl])) fun m hm => hmarks m (by simp [Construct.marks, hm])
    have hgroup := Span.Uncaptures.ofNode (hmarks _ List.mem_cons_self) (.inl rfl)
    have hkind : (choiceNode ⟨skipping, false⟩ offset condition branches).kind = .conditional :=
      Node.kind_choose _ _
    have hchoice := Span.Uncaptures.ofNode
      (hmarks _ (List.mem_cons_of_mem _ List.mem_cons_self)) (.inr hkind)
    have huncapture : (Node.group .conditional
          [choiceNode ⟨skipping, false⟩ offset condition branches]).uncapture =
        .group .conditional [choiceNode ⟨skipping, true⟩ offset condition branches] := by
      rw [choiceNode_explicitCapture skipping offset h]
      rfl
    rw [← choiceNode_explicitCapture skipping offset h] at hchoice
    rw [huncapture] at hgroup
    exact List.rel_append (List.rel_append hcondition hbranches) (.cons hchoice (.cons hgroup .nil))

theorem uncaptures_spansAll (skipping : Bool) {marks : List Mark} (offset : Nat) :
    (cs : List Construct) → (∀ l ∈ lexemesAll cs, l.token.Sound) →
      (∀ m ∈ marksAll ⟨skipping, false⟩ offset cs, m ∈ marks) →
      List.Forall₂ (Span.Uncaptures marks) (spansAll ⟨skipping, false⟩ offset cs)
        (spansAll ⟨skipping, true⟩ offset cs)
  | [], _, _ => .nil
  | c :: cs, h, hmarks => by
    refine List.rel_append ?_ ?_
    · exact uncaptures_spans skipping offset c (fun l hl => h l (List.mem_append_left _ hl))
        fun m hm => hmarks m (List.mem_append_right _ hm)
    · exact uncaptures_spansAll skipping _ cs (fun l hl => h l (List.mem_append_right _ hl))
        fun m hm => hmarks m (List.mem_append_left _ hm)

end

end Construct

/-! ## Explanations -/

/-- How an explanation with numbered captures, which was put together from `marks`, becomes the one
without them. -/
structure Explanation.Uncaptures (marks : List Mark) (e d : Explanation) : Prop where
  /-- In the tree, numbered captures at any depth become groups that do not capture. -/
  tree_eq : d.tree = Node.uncaptureAll e.tree
  /-- The entries correspond to each other, one by one. -/
  entries : List.Forall₂ (Span.Uncaptures marks) e.index.entries d.index.entries
  /-- The marked nodes are those of the tree with numbered captures. Only a bar may be missing
  there. -/
  occurs : ∀ n start stop, .node n start stop ∈ marks → n.kind ≠ .alternation →
    Node.Occurs n e.tree
  /-- A run of literals is open at the end of both indexes or of none. -/
  runOpen_eq : d.index.runOpen = e.index.runOpen

open Construct

/-- Whether plain groups capture does not change how a pattern fails. -/
theorem explain_eq_error_explicitCapture {pattern : Text} {skipping : Bool} {f : Fault} :
    explain pattern ⟨skipping, true⟩ = .error f ↔ explain pattern ⟨skipping, false⟩ = .error f := by
  rw [explain_eq_error_iff, explain_eq_error_iff]

/-- If plain parentheses do not capture, a pattern fails as it would otherwise, or is explained with
groups that do not capture in place of numbered captures. -/
theorem explain_explicitCapture (pattern : Text) (skipping : Bool) :
    match explain pattern ⟨skipping, false⟩, explain pattern ⟨skipping, true⟩ with
    | .ok e, .ok d => ∃ a, Assembly.assemble ⟨skipping, false⟩ 0 (Lexeme.lex skipping pattern) =
        .ok a ∧ Explanation.Uncaptures a.marks e d
    | .error f, .error g => f = g
    | _, _ => False := by
  cases hoff : explain pattern ⟨skipping, false⟩ with
  | error f =>
    rw [explain_eq_error_explicitCapture.2 hoff]
  | ok e =>
    obtain ⟨cs, hcs, rfl⟩ := explain_eq_ok_iff.1 hoff
    -- the same constructs make up the pattern, because its tokens are the same
    have hforms : Forms cs ⟨skipping, true⟩ pattern := ⟨hcs.proper, hcs.lexemesAll_eq⟩
    rw [explain_eq_ok_iff.2 ⟨cs, hforms, rfl⟩]
    have hsound : ∀ l ∈ lexemesAll cs, l.token.Sound := by
      intro l hl
      rw [hcs.lexemesAll_eq] at hl
      exact Lexeme.sound_of_mem_lex hl
    refine ⟨_, assemble_lex_eq_ok_iff.2 ⟨cs, hcs, rfl⟩, ?_⟩
    have hmarks : (Assembly.extend ⟨skipping, false⟩ { offset := 0 } cs).marks =
        marksAll ⟨skipping, false⟩ 0 cs := List.append_nil _
    rw [hmarks]
    refine ⟨nodesAll_explicitCapture skipping 0 cs hsound, ?_, ?_, ?_⟩
    · rw [entries_explanation _ hcs.proper, entries_explanation _ hcs.proper]
      exact uncaptures_spansAll skipping 0 cs hsound fun m hm => hm
    · exact fun n start stop hm hn => occurs_of_mem_marksAll _ hn 0 cs hm
    · rw [runOpen_explanation _ hcs.proper, runOpen_explanation _ hcs.proper]

end RegexGloss
