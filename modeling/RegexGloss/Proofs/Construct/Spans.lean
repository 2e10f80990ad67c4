import RegexGloss.Proofs.Construct.Basic

/-!
# Spans of constructs

The entries of an index are computed from the marks of a pattern one by one, with a flag that says
whether a run of literals goes on. For proper constructs the entries can be read off directly:
`Construct.spans` lists them without a flag, one for each run of literals and one for every other
construct that is not skipped, two for a conditional. Recording the marks of constructs adds just
these entries, and leaves the flag set if the last construct is a run
(`SpanIndex.recordAll_marksAll`).
-/

namespace RegexGloss

/-! ## The entries of constructs -/

/-- The text that describes literals that follow each other. -/
def Literal.textAll (ls : List Literal) : Text := (ls.map Literal.text).flatten

namespace Construct

mutual

/-- The entries of a construct that starts at an offset, in the order of their registration. -/
def spans (o : Options) (offset : Nat) : Construct → List Span
  | skipped _ _ => []
  | run first more =>
    [⟨.literal, offset, offset + first.extra + Literal.widthAll more,
      Literal.textAll (first :: more)⟩]
  | atom a extra => [.ofNode (.atom a) offset (offset + extra)]
  | bar => [.ofNode (.bar offset) offset offset]
  | bare kind extra => [.ofNode (.bare kind) offset (offset + extra)]
  | group heading extra body =>
    spansAll o (offset + (extra + 1)) body ++
      [.ofNode (groupNode o offset heading extra body) offset
        (offset + (extra + 1) + widthAll body)]
  | conditional condition branches =>
    let choice := choiceNode o offset condition branches
    spansAll o (offset + 3) condition ++ spansAll o (offset + 4 + widthAll condition) branches ++
      [.ofNode choice (offset + 2) (offset + 3 + widthAll condition + widthAll branches),
        .ofNode (.group .conditional [choice]) offset
          (offset + 4 + widthAll condition + widthAll branches)]
termination_by structural c => c

/-- The entries of constructs that follow each other from an offset on. -/
def spansAll (o : Options) (offset : Nat) : List Construct → List Span
  | [] => []
  | c :: cs => spans o offset c ++ spansAll o (offset + c.width) cs
termination_by structural cs => cs

end

@[simp]
theorem spansAll_nil (o : Options) (offset : Nat) : spansAll o offset [] = [] := rfl

@[simp]
theorem spansAll_cons (o : Options) (offset : Nat) (c : Construct) (cs : List Construct) :
    spansAll o offset (c :: cs) = c.spans o offset ++ spansAll o (offset + c.width) cs := rfl

theorem spansAll_append (o : Options) (offset : Nat) (cs ds : List Construct) :
    spansAll o offset (cs ++ ds) =
      spansAll o offset cs ++ spansAll o (offset + widthAll cs) ds := by
  induction cs generalizing offset with
  | nil => simp
  | cons c cs ih => simp [ih, Nat.add_assoc]

/-- Whether a run of literals goes on behind constructs, given whether one does before them. -/
def leavesOpen (before : Bool) : List Construct → Bool
  | [] => before
  | c :: cs => leavesOpen c.isRun cs

end Construct

/-! ## Recording marks -/

/-- A literal is described by its text. -/
@[simp]
theorem Literal.describe_node (l : Literal) : l.node.describe = l.text :=
  l.dropSpaces_text

namespace SpanIndex

open Construct

@[simp]
theorem record_gap (i : SpanIndex) : i.record .gap = ⟨i.latest, false⟩ := rfl

/-- A node other than a literal is an entry of its own and ends a run of literals. -/
theorem record_of_kind_ne {n : Node} (h : n.kind ≠ .literal) (i : SpanIndex) (start stop : Nat) :
    i.record (.node n start stop) = ⟨.ofNode n start stop :: i.latest, false⟩ := by
  have hn : n.isLiteral = false := by
    rw [Node.isLiteral_eq_kind]
    simpa using h
  simp [record, push, hn]

/-- Literals behind a run of literals extend its entry. -/
theorem recordAll_literals (s : Span) (earlier : List Span) (ls : List Literal) {offset : Nat}
    (h : s.stop + 1 = offset) :
    recordAll ⟨s :: earlier, true⟩ (Literal.marksAll offset ls) =
      ⟨{ s with
          stop := s.stop + Literal.widthAll ls
          text := s.text ++ Literal.textAll ls } :: earlier, true⟩ := by
  induction ls generalizing s offset with
  | nil => simp [Literal.marksAll, Literal.widthAll, Literal.textAll]
  | cons l ls ih =>
    -- an open run takes the first literal in, and stays the latest entry
    have hrecord : record ⟨s :: earlier, true⟩ (.node l.node offset (offset + l.extra)) =
        ⟨{ s with stop := offset + l.extra, text := s.text ++ l.text } :: earlier, true⟩ := by
      have hdescribe : l.node.describe = l.text := l.describe_node
      simp [record, push, Node.isLiteral, Node.literal?, Literal.node, Span.ofNode] at hdescribe ⊢
      exact hdescribe
    rw [Literal.marksAll, recordAll_append, recordAll_cons, recordAll_nil, hrecord, ih]
    · simp only [Literal.textAll, Literal.widthAll, List.map_cons, List.flatten_cons,
        List.append_assoc, List.sum_cons, Literal.width, SpanIndex.mk.injEq, List.cons.injEq,
        Span.mk.injEq, and_true, true_and]
      omega
    · simp only [Literal.width]
      omega

/-- The first literal after the end of a run starts a run. -/
theorem record_literal_of_closed {i : SpanIndex} (h : i.runOpen = false) (l : Literal)
    (offset : Nat) :
    i.record (.node l.node offset (offset + l.extra)) =
      ⟨⟨.literal, offset, offset + l.extra, l.text⟩ :: i.latest, true⟩ := by
  have hdescribe : l.node.describe = l.text := l.describe_node
  simp [record, push, h, Node.isLiteral, Node.literal?, Literal.node, Span.ofNode] at hdescribe ⊢
  exact ⟨rfl, hdescribe⟩

mutual

/-- The marks of a proper construct add its entries. A run must not follow another run. -/
theorem recordAll_marks (o : Options) (offset : Nat) :
    (c : Construct) → c.Proper → (i : SpanIndex) → (c.isRun → i.runOpen = false) →
      i.recordAll (c.marks o offset) = ⟨(c.spans o offset).reverse ++ i.latest, c.isRun⟩
  | .skipped _ _, _, _, _ => rfl
  | .run first more, _, i, h => by
    -- the first literal starts the entry that the other ones extend
    rw [Construct.marks, Literal.marksAll, recordAll_append, recordAll_cons, recordAll_nil,
      record_literal_of_closed (h rfl), recordAll_literals]
    · simp [Construct.spans, Construct.isRun, Literal.textAll]
    · simp [Literal.width, Nat.add_assoc]
  | .atom a extra, h, i, _ => record_of_kind_ne (n := .atom a) h i offset (offset + extra)
  | .bar, _, i, _ => record_of_kind_ne (n := .bar offset) (by simp [Node.kind]) i offset offset
  | .bare kind extra, _, i, _ =>
    record_of_kind_ne (n := .bare kind) (by simp [Node.kind]) ⟨i.latest, false⟩ offset _
  | .group heading extra body, h, i, _ => by
    -- the gap at the parenthesis ends a run before the group, so any body may follow
    rw [Construct.marks, recordAll_cons, recordAll_append, recordAll_cons, recordAll_nil,
      record_gap, recordAll_marksAll o _ body h ⟨i.latest, false⟩ (by simp),
      record_of_kind_ne (by simp [groupNode, Node.kind])]
    simp [Construct.spans, Construct.isRun]
  | .conditional condition branches, h, i, _ => by
    obtain ⟨hcondition, hbranches, -⟩ := h
    simp only [Construct.marks, recordAll_cons, recordAll_append, recordAll_nil, record_gap]
    rw [recordAll_marksAll o _ condition hcondition ⟨i.latest, false⟩ (by simp),
      recordAll_marksAll o _ branches hbranches ⟨_, false⟩ (by simp),
      record_of_kind_ne (by simp [Node.kind]), record_of_kind_ne (by simp [choiceNode])]
    simp [Construct.spans, Construct.isRun]

/-- The marks of proper constructs add their entries. A run must not follow another run. -/
theorem recordAll_marksAll (o : Options) (offset : Nat) :
    (cs : List Construct) → ProperAll cs → (i : SpanIndex) → (i.runOpen → StartsNoRun cs) →
      i.recordAll (marksAll o offset cs) =
        ⟨(spansAll o offset cs).reverse ++ i.latest, leavesOpen i.runOpen cs⟩
  | [], _, _, _ => rfl
  | c :: cs, h, i, hi => by
    obtain ⟨hc, hrun, hcs⟩ := h
    -- after an open run there is no run, because the two would be one
    have hopen : c.isRun → i.runOpen = false := by
      intro hc
      cases hopen : i.runOpen with
      | false => rfl
      | true =>
        have := hi hopen c rfl
        simp [hc] at this
    rw [marksAll_cons, recordAll_append, recordAll_marks o offset c hc i hopen,
      recordAll_marksAll o _ cs hcs _ hrun]
    simp [leavesOpen]

end

/-- The index of proper constructs has their entries. -/
theorem entries_recordAll_marksAll (o : Options) (offset : Nat) {cs : List Construct}
    (h : ProperAll cs) : (empty.recordAll (marksAll o offset cs)).entries = spansAll o offset cs := by
  rw [recordAll_marksAll o offset cs h empty (by simp [empty])]
  simp [entries, empty]

end SpanIndex

end RegexGloss
