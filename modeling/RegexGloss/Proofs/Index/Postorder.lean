import RegexGloss.Proofs.Construct.Bounds
import RegexGloss.Proofs.Construct.Explanation

/-!
# Indexes list the tree bottom up

An index is put together mark by mark, and the tree apart from it. Yet the kinds and texts of the
entries are those of the tree, every node behind its children, with one item for literals that
follow each other (`Node.flatAll`). Where blanks are skipped they may separate literals that follow
each other in the tree, so that such an item is split among several entries (`SplitsTo`).

Main statement: `labels_of_explain`.
-/

namespace RegexGloss

/-- The kind and the text of an entry. -/
def Span.label (s : Span) : NodeKind × Text := (s.kind, s.text)

namespace Node

/-! ## The items of a tree -/

/-- The kind of a node and its description. -/
def label (n : Node) : NodeKind × Text := (n.kind, n.describe)

/-- The item of literals that follow each other, if there are any. -/
def runLabel (run : Option Text) : List (NodeKind × Text) :=
  (run.map fun text => (.literal, text)).toList

mutual

/-- The items of a node: those of its children, and its own. A bar separates the branches of a
choice. -/
def flat : Node → List (NodeKind × Text)
  | atom a => [label (atom a)]
  | bar pos => [label (bar pos)]
  | bare kind => [label (bare kind)]
  | group kind body => flatFrom none body ++ [label (group kind body)]
  | ifThen condition yes =>
    flatFrom none condition ++ flatFrom none yes ++ [label (ifThen condition yes)]
  | ifThenElse condition yes no =>
    flatFrom none condition ++ flatFrom none yes ++ (.alternation, "or".toList) ::
      flatFrom none no ++ [label (ifThenElse condition yes no)]
termination_by structural n => n

/-- The items of nodes that follow literals with the text `run`. -/
def flatFrom (run : Option Text) : List Node → List (NodeKind × Text)
  | [] => runLabel run
  | n :: ns =>
    match n.literal? with
    | some text => flatFrom (some (run.getD [] ++ text)) ns
    | none => runLabel run ++ flat n ++ flatFrom none ns
termination_by structural ns => ns

end

/-- The items of a tree: one for all literals that follow each other, and those of every other
node. -/
def flatAll (ns : List Node) : List (NodeKind × Text) := flatFrom none ns

/-- Literals that follow each other join the ones before them. -/
theorem flatFrom_literals (run : Option Text) (first : Literal) (more : List Literal)
    (ns : List Node) :
    flatFrom run ((first :: more).map Literal.node ++ ns) =
      flatFrom (some (run.getD [] ++ Literal.textAll (first :: more))) ns := by
  induction more generalizing run first with
  | nil =>
    rw [List.map_singleton, List.singleton_append, Literal.textAll, List.map_singleton,
      List.flatten_singleton]
    rfl
  | cons second more ih =>
    have hfirst : flatFrom run ((first :: second :: more).map Literal.node ++ ns) =
        flatFrom (some (run.getD [] ++ first.text)) ((second :: more).map Literal.node ++ ns) := rfl
    have htext : Literal.textAll (first :: second :: more) =
        first.text ++ Literal.textAll (second :: more) := rfl
    rw [hfirst, ih, htext, Option.getD_some, List.append_assoc]

/-- A node that is no literal follows the literals before it with its own items. -/
theorem flatFrom_cons (run : Option Text) {n : Node} (h : n.literal? = none) (ns : List Node) :
    flatFrom run (n :: ns) = runLabel run ++ flat n ++ flatAll ns := by
  rw [flatFrom, h]
  rfl

/-- A node that is no literal separates the items before it from those behind it. -/
theorem flatFrom_append_cons (run : Option Text) (ms : List Node) {n : Node}
    (h : n.literal? = none) (ns : List Node) :
    flatFrom run (ms ++ n :: ns) = flatFrom run ms ++ flat n ++ flatAll ns := by
  induction ms generalizing run with
  | nil => exact flatFrom_cons run h ns
  | cons m ms ih =>
    cases hm : m.literal? with
    | some text =>
      rw [List.cons_append, flatFrom, flatFrom, hm]
      exact ih _
    | none =>
      have hms : flatAll (ms ++ n :: ns) = flatAll ms ++ flat n ++ flatAll ns := ih none
      rw [List.cons_append, flatFrom_cons run hm, flatFrom_cons run hm, hms]
      simp only [List.append_assoc]

theorem literal?_choose (condition branches : List Node) :
    (choose condition branches).literal? = none := by
  rcases choose_eq_or condition branches with h | ⟨yes, pos, no, -, h⟩
  · rw [h]
    rfl
  · rw [h]
    rfl

/-- The items of a choice are those of its condition and of its branches, and its own. -/
theorem flat_choose (condition branches : List Node) :
    flat (choose condition branches) =
      flatAll condition ++ flatAll branches ++ [label (choose condition branches)] := by
  rcases choose_eq_or condition branches with h | ⟨yes, pos, no, rfl, h⟩
  · rw [h]
    rfl
  · -- the bar that is taken away is the item between the branches
    have hbar : flat (bar pos) = [(.alternation, "or".toList)] := rfl
    have hbranches : flatAll (yes ++ bar pos :: no) = flatAll yes ++ flat (bar pos) ++ flatAll no :=
      flatFrom_append_cons none yes rfl no
    rw [h, hbranches, hbar, flat]
    simp only [flatAll, List.append_assoc, List.cons_append, List.nil_append]

end Node

/-! ## Splitting items -/

/-- Items become other ones: each stays as it is, or it is that of literals and is split into items
of literals whose texts make up its own. There may be more than one of these only with `many`. -/
inductive SplitsTo (many : Bool) : List (NodeKind × Text) → List (NodeKind × Text) → Prop where
  /-- There are no items. -/
  | nil : SplitsTo many [] []
  /-- The first item stays as it is. -/
  | keep (item : NodeKind × Text) {items entries : List (NodeKind × Text)}
    (h : SplitsTo many items entries) : SplitsTo many (item :: items) (item :: entries)
  /-- The first item is split into one or more parts. -/
  | split (parts : List Text) {items entries : List (NodeKind × Text)} (hparts : parts ≠ [])
    (hmany : many = false → parts.length = 1) (h : SplitsTo many items entries) :
    SplitsTo many ((.literal, parts.flatten) :: items)
      (parts.map (fun text => (.literal, text)) ++ entries)

namespace SplitsTo

variable {many : Bool} {items items' entries entries' : List (NodeKind × Text)}

theorem append (h : SplitsTo many items entries) (h' : SplitsTo many items' entries') :
    SplitsTo many (items ++ items') (entries ++ entries') := by
  induction h with
  | nil => exact h'
  | keep item h ih => exact .keep item ih
  | split parts hparts hmany h ih =>
    rw [List.append_assoc]
    exact .split parts hparts hmany ih

/-- Without splitting, items stay as they are. -/
theorem eq (h : SplitsTo many items entries) (hmany : many = false) : items = entries := by
  induction h with
  | nil => rfl
  | keep item h ih => rw [ih]
  | split parts hparts hone h ih =>
    obtain ⟨text, rfl⟩ := List.length_eq_one_iff.1 (hone hmany)
    rw [ih, List.flatten_singleton]
    rfl

end SplitsTo

/-! ## The items of constructs -/

/-- The text of literals that follow each other in runs with these texts, if there are any. -/
def Literal.pending : List Text → Option Text
  | [] => none
  | parts => some parts.flatten

theorem Literal.pending_concat (parts : List Text) (text : Text) :
    pending (parts ++ [text]) = some ((pending parts).getD [] ++ text) := by
  cases parts with
  | nil => simp [pending]
  | cons part parts => simp [pending]

/-- The item of literals that follow each other is split among their runs. -/
theorem SplitsTo.pending {many : Bool} {parts : List Text} {p : Prop}
    (hparts : many = false → parts = [] ∨ parts.length = 1 ∧ p) :
    SplitsTo many (Node.runLabel (Literal.pending parts))
      (parts.map fun text => (.literal, text)) := by
  cases parts with
  | nil => exact .nil
  | cons part parts =>
    have h : SplitsTo many _ _ := .split (part :: parts) (List.cons_ne_nil part parts)
      (fun hmany => ((hparts hmany).resolve_left (List.cons_ne_nil part parts)).1) .nil
    rwa [List.append_nil] at h

/-- Blanks and comments are among tokens only if several runs may follow each other. -/
def Lexeme.NoneSkipped (many : Bool) (ls : List Lexeme) : Prop :=
  many = false → ∀ l ∈ ls, l.token ≠ .blank ∧ l.token ≠ .comment

theorem Lexeme.NoneSkipped.mono {many : Bool} {ls ms : List Lexeme} (h : NoneSkipped many ls)
    (hms : ∀ l ∈ ms, l ∈ ls) : NoneSkipped many ms :=
  fun hmany l hl => h hmany l (hms l hl)

namespace Construct

mutual

/-- A construct that is neither skipped nor a run adds one node, and its entries are the items of
this node. -/
theorem exists_splitsTo_spans (many : Bool) (o : Options) (offset : Nat) :
    (c : Construct) → c.Proper → Lexeme.NoneSkipped many c.lexemes → c.isSkipped = false →
      c.isRun = false → ∃ n, c.nodes o offset = [n] ∧ n.literal? = none ∧
        SplitsTo many n.flat ((c.spans o offset).map Span.label)
  | .skipped _ _, _, _, hskipped, _ => by cases hskipped
  | .run _ _, _, _, _, hrun => by cases hrun
  | .atom a extra, h, _, _, _ => by
    refine ⟨.atom a, rfl, ?_, .keep _ .nil⟩
    cases a with
    | literal text => exact absurd rfl h
    | _ => rfl
  | .bar, _, _, _, _ => ⟨.bar offset, rfl, rfl, .keep _ .nil⟩
  | .bare kind extra, _, _, _, _ => ⟨.bare kind, rfl, rfl, .keep _ .nil⟩
  | .group heading extra body, h, hskipped, _, _ => by
    -- no literals wait at the start of a body
    have hbody := splitsTo_spansAll many o (offset + (extra + 1)) body h
      (hskipped.mono fun l hl => by simp [lexemes, hl]) [] fun _ => .inl rfl
    refine ⟨groupNode o offset heading extra body, rfl, rfl, ?_⟩
    rw [spans, List.map_append]
    exact hbody.append (.keep _ .nil)
  | .conditional condition branches, h, hskipped, _, _ => by
    have hcondition := splitsTo_spansAll many o (offset + 3) condition h.1
      (hskipped.mono fun l hl => by simp [lexemes, hl]) [] fun _ => .inl rfl
    have hbranches := splitsTo_spansAll many o (offset + 4 + widthAll condition) branches h.2.1
      (hskipped.mono fun l hl => by simp [lexemes, hl]) [] fun _ => .inl rfl
    refine ⟨.group .conditional [choiceNode o offset condition branches], rfl, rfl, ?_⟩
    have hchoice : (choiceNode o offset condition branches).literal? = none :=
      Node.literal?_choose _ _
    have hflat : (Node.group .conditional [choiceNode o offset condition branches]).flat =
        Node.flatAll (nodesAll o (offset + 3) condition) ++
          Node.flatAll (nodesAll o (offset + 4 + widthAll condition) branches) ++
            [Node.label (choiceNode o offset condition branches),
              Node.label (.group .conditional [choiceNode o offset condition branches])] := by
      rw [Node.flat, Node.flatFrom_cons none hchoice, choiceNode, Node.flat_choose]
      simp [Node.runLabel, Node.flatAll, Node.flatFrom]
    rw [hflat, spans, List.map_append, List.map_append]
    exact (hcondition.append hbranches).append (.keep _ (.keep _ .nil))

/-- The entries of constructs are the items of their nodes. Literals in one run or more may come
before. -/
theorem splitsTo_spansAll (many : Bool) (o : Options) (offset : Nat) :
    (cs : List Construct) → ProperAll cs → Lexeme.NoneSkipped many (lexemesAll cs) →
      (parts : List Text) → (many = false → parts = [] ∨ parts.length = 1 ∧ StartsNoRun cs) →
      SplitsTo many (Node.flatFrom (Literal.pending parts) (nodesAll o offset cs))
        (parts.map (fun text => (.literal, text)) ++ (spansAll o offset cs).map Span.label)
  | [], _, _, parts, hparts => by
    rw [spansAll_nil, List.map_nil, List.append_nil]
    exact SplitsTo.pending hparts
  | c :: cs, h, hskipped, parts, hparts => by
    obtain ⟨hc, hrun, hcs⟩ := h
    have hspans := exists_splitsTo_spans many o offset c hc
      (hskipped.mono fun l hl => List.mem_append_left _ hl)
    have hrest := splitsTo_spansAll many o (offset + c.width) cs hcs
      (hskipped.mono fun l hl => List.mem_append_right _ hl)
    cases c with
    | skipped comment extra =>
      -- what is skipped leaves the literals before it waiting for more
      refine hrest parts fun hmany => ?_
      have := hskipped hmany _ List.mem_cons_self
      cases comment <;> simp at this
    | run first more =>
      -- unless blanks are skipped no run waits here, because this one would belong to it
      have h := hrest (parts ++ [Literal.textAll (first :: more)]) fun hmany => by
        rcases hparts hmany with rfl | ⟨-, hstarts⟩
        · exact .inr ⟨rfl, hrun rfl⟩
        · cases hstarts _ rfl
      rw [Literal.pending_concat, ← Node.flatFrom_literals, List.map_append,
        List.append_assoc] at h
      exact h
    | _ =>
      -- a node that is no literal completes the item of the literals before it
      obtain ⟨n, hn, hliteral, hsplits⟩ := hspans rfl rfl
      rw [nodesAll_cons, hn, List.singleton_append, Node.flatFrom_cons _ hliteral, spansAll_cons,
        List.map_append, ← List.append_assoc]
      exact ((SplitsTo.pending hparts).append hsplits).append (hrest [] fun _ => .inl rfl)

end

end Construct

/-- The kinds and texts of the entries are the items of the tree, bottom up. Where blanks are
skipped, items of literals may be split among several entries. -/
theorem labels_of_explain {pattern : Text} {o : Options} {e : Explanation}
    (h : explain pattern o = .ok e) :
    (o.ignoreWhitespace = false → e.index.entries.map Span.label = Node.flatAll e.tree) ∧
      SplitsTo o.ignoreWhitespace (Node.flatAll e.tree) (e.index.entries.map Span.label) := by
  obtain ⟨cs, hcs, rfl⟩ := explain_eq_ok_iff.1 h
  have hskipped : Lexeme.NoneSkipped o.ignoreWhitespace (Construct.lexemesAll cs) := by
    intro ho l hl
    rw [hcs.lexemesAll_eq, ho] at hl
    exact Lexeme.not_skipped_of_mem_lex hl
  have hsplits := Construct.splitsTo_spansAll o.ignoreWhitespace o 0 cs hcs.proper hskipped []
    fun _ => .inl rfl
  rw [List.map_nil, List.nil_append, ← Construct.entries_explanation o hcs.proper] at hsplits
  exact ⟨fun ho => (hsplits.eq ho).symm, hsplits⟩

theorem labels_of_explain_conditional :
    ∃ e, explain ['a', '(', '?', '(', 'b', ')', 'c', '|', 'd', ')', 'e'] {} = .ok e ∧
      e.index.entries.map Span.label = Node.flatAll e.tree := by
  obtain ⟨e, he⟩ : ∃ e, explain ['a', '(', '?', '(', 'b', ')', 'c', '|', 'd', ')', 'e'] {} =
      .ok e := ⟨_, rfl⟩
  exact ⟨e, he, (labels_of_explain he).1 rfl⟩

end RegexGloss
