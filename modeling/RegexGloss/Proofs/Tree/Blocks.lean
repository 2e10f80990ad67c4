import Mathlib.Data.List.SplitBy
import RegexGloss.Node.Render

/-!
# Lines of blocks

Rendering goes through a list of nodes with the text of the literals that it has come upon last.
What it writes can be told without going through the list: the nodes fall into blocks, literals that
follow each other being one block, and every block has lines of its own. This holds of any nodes,
those that no pattern is read as included, and so it holds of literals without a text and of texts
with line ends, too.

Main statement: `Node.rendersByBlocks`.
-/

namespace RegexGloss

/-! ## Blocks of a list -/

section

variable {α : Type} {p : α → Bool} {a : α} {l m block : List α}

/-- The blocks of a list: elements with a property that follow each other are in one block, and
every other element is a block by itself. -/
def blocksBy (p : α → Bool) (l : List α) : List (List α) := l.splitBy fun a b => p a && p b

/-- Where two elements without the property in common meet, blocks end. -/
theorem blocksBy_append (h : ∀ a ∈ l.getLast?, ∀ b ∈ m.head?, (p a && p b) = false) :
    blocksBy p (l ++ m) = blocksBy p l ++ blocksBy p m :=
  List.splitBy_append h

/-- An element without the property is a block by itself. -/
theorem blocksBy_cons (h : p a = false) (l : List α) :
    blocksBy p (a :: l) = [a] :: blocksBy p l := by
  refine List.splitBy_append (l := [a]) fun b hb c _ => ?_
  obtain rfl : a = b := Option.some.inj hb
  rw [h, Bool.false_and]

/-- Elements with the property alone are one block. -/
theorem blocksBy_of_forall (hl : l ≠ []) (h : ∀ a ∈ l, p a = true) : blocksBy p l = [l] := by
  refine List.splitBy_of_isChain hl ?_
  refine (List.pairwise_of_forall_mem_list fun a ha b hb => ?_).isChain
  rw [h a ha, h b hb, Bool.and_true]

theorem flatten_blocksBy (p : α → Bool) (l : List α) : (blocksBy p l).flatten = l :=
  List.flatten_splitBy _ l

/-- Elements that are in one block have the property, unless there is only one. -/
theorem forall_of_isChain {b : α} (h : (a :: b :: l).IsChain fun a b => p a && p b) :
    ∀ c ∈ a :: b :: l, p c = true := by
  induction l generalizing a b with
  | nil => simpa using h
  | cons c l ih =>
    obtain ⟨hab, hrest⟩ := List.isChain_cons_cons.1 h
    exact List.forall_mem_cons.2 ⟨(Bool.and_eq_true_iff.1 hab).1, ih hrest⟩

/-- The elements of a block have the property, or the block is one element without it. -/
theorem forall_or_of_mem_blocksBy (h : block ∈ blocksBy p l) :
    (block ≠ [] ∧ ∀ a ∈ block, p a = true) ∨ ∃ a, block = [a] ∧ p a = false := by
  have hchain := List.isChain_of_mem_splitBy h
  match block with
  | [] => exact absurd h (List.nil_notMem_splitBy _ l)
  | [a] =>
    cases ha : p a with
    | true => exact .inl ⟨List.cons_ne_nil _ _, by simpa using ha⟩
    | false => exact .inr ⟨a, rfl, ha⟩
  | a :: b :: rest => exact .inl ⟨List.cons_ne_nil _ _, forall_of_isChain hchain⟩

/-- Blocks of elements with the property do not follow each other. -/
theorem isChain_blocksBy (p : α → Bool) (l : List α) :
    (blocksBy p l).IsChain fun b c => ¬((∀ a ∈ b, p a = true) ∧ ∀ a ∈ c, p a = true) := by
  refine (List.isChain_getLast_head_splitBy _ l).imp fun b c hbc => ?_
  rintro ⟨hb, hc⟩
  obtain ⟨hb', hc', hends⟩ := hbc
  rw [hb _ (List.getLast_mem hb'), hc _ (List.head_mem hc')] at hends
  cases hends

end

open Text

namespace Node

/-! ## Blocks of nodes and their lines -/

/-- Nodes in blocks: literals that follow each other are in one block, and every other node is a
block by itself. -/
def blocks (ns : List Node) : List (List Node) := blocksBy isLiteral ns

/-- The texts of literals, one behind the other. -/
def joinedText (ns : List Node) : Text := (ns.filterMap literal?).flatten

/-- The lines of a block. Literals share a line, and there is none if they have no text. A node by
itself is given a line end unless its text has one, or is empty. -/
def blockLines (indent : Nat) (block : List Node) : Text :=
  if ∀ n ∈ block, n.isLiteral then
    if joinedText block = [] then [] else spaces indent ++ joinedText block ++ lineEnd
  else
    block.flatMap fun n =>
      if render indent n = [] then []
      else if lineEnd <:+ render indent n then render indent n
      else render indent n ++ lineEnd

/-- The line of a block of literals. -/
theorem blockLines_of_literals (indent : Nat) {block : List Node}
    (h : ∀ n ∈ block, n.isLiteral = true) :
    blockLines indent block = line indent (joinedText block) := by
  rw [blockLines, if_pos h, line]
  simp only [List.isEmpty_iff]

/-- The lines of a node that is a block by itself. -/
theorem blockLines_singleton (indent : Nat) {n : Node} (h : n.isLiteral = false) :
    blockLines indent [n] = endLine (render indent n) := by
  rw [blockLines, if_neg (by simp [h]), List.flatMap_singleton, endLine]
  simp only [List.isEmpty_iff, endsLine_iff]

theorem joinedText_concat (ns : List Node) (text : Text) :
    joinedText (ns ++ [atom (.literal text)]) = joinedText ns ++ text := by
  simp [joinedText, literal?]

/-- The line of literals that wait for others is that of their block. -/
theorem line_joinedText (indent : Nat) {waiting : List Node}
    (h : ∀ n ∈ waiting, n.isLiteral = true) :
    line indent (joinedText waiting) = (blocks waiting).flatMap (blockLines indent) := by
  by_cases hnil : waiting = []
  · subst hnil
    rfl
  · rw [blocks, blocksBy_of_forall hnil h, List.flatMap_singleton, blockLines_of_literals indent h]

/-- Rendering writes the lines of blocks. Literals that wait for others may come before. -/
theorem renderFrom_joinedText (indent : Nat) (waiting ns : List Node)
    (h : ∀ n ∈ waiting, n.isLiteral = true) :
    renderFrom indent (joinedText waiting) ns =
      (blocks (waiting ++ ns)).flatMap (blockLines indent) := by
  induction ns generalizing waiting with
  | nil =>
    rw [List.append_nil, ← line_joinedText indent h]
    rfl
  | cons n ns ih =>
    cases hn : n.literal? with
    | some text =>
      -- a literal waits with the others
      obtain rfl := (literal?_eq_some_iff n text).1 hn
      rw [renderFrom_literal, ← joinedText_concat, ih, List.append_assoc, List.singleton_append]
      exact List.forall_mem_append.2 ⟨h, List.forall_mem_singleton.2 rfl⟩
    | none =>
      have hliteral : n.isLiteral = false := by rw [isLiteral, hn, Option.isSome_none]
      have hrest : renderAll indent ns = (blocks ns).flatMap (blockLines indent) :=
        ih [] nofun
      rw [renderFrom_cons indent _ hn, line_joinedText indent h, hrest, blocks, blocks, blocks,
        blocksBy_append (by simp [hliteral]), blocksBy_cons hliteral, List.flatMap_append,
        List.flatMap_cons, blockLines_singleton indent hliteral, List.append_assoc]

/-- How a list of nodes is rendered. -/
structure RendersByBlocks (indent : Nat) (ns : List Node) : Prop where
  /-- The blocks are made up of the nodes, in order. -/
  flatten_blocks : (blocks ns).flatten = ns
  /-- A block is made up of literals, or is a node of another kind. -/
  forall_or : ∀ block ∈ blocks ns,
    (block ≠ [] ∧ ∀ n ∈ block, n.isLiteral = true) ∨ ∃ n, block = [n] ∧ n.isLiteral = false
  /-- No block of literals could be longer. -/
  isChain : (blocks ns).IsChain fun b c =>
    ¬((∀ n ∈ b, n.isLiteral = true) ∧ ∀ n ∈ c, n.isLiteral = true)
  /-- The lines of the blocks are written one after the other. -/
  renderAll_eq : renderAll indent ns = (blocks ns).flatMap (blockLines indent)
  /-- The lines of two parts are written one after the other, unless literals meet in between. -/
  append : ∀ first rest, ns = first ++ rest →
    (∀ m ∈ first.getLast?, ∀ n ∈ rest.head?, m.isLiteral = false ∨ n.isLiteral = false) →
    renderAll indent ns = renderAll indent first ++ renderAll indent rest

/-- Every list of nodes is rendered block by block. -/
theorem rendersByBlocks (indent : Nat) (ns : List Node) : RendersByBlocks indent ns := by
  have hrender (ns : List Node) :
      renderAll indent ns = (blocks ns).flatMap (blockLines indent) :=
    renderFrom_joinedText indent [] ns nofun
  refine ⟨flatten_blocksBy _ ns, fun _ => forall_or_of_mem_blocksBy, isChain_blocksBy _ ns,
    hrender ns, ?_⟩
  rintro first rest rfl hmeet
  rw [hrender, hrender, hrender, blocks, blocksBy_append, List.flatMap_append]
  · rfl
  · intro m hm n hn
    exact Bool.and_eq_false_iff.2 (hmeet m hm n hn)

/-- A node without a text keeps literals apart, and a text with a line end is given no other. -/
example : renderAll 0 [.atom (.literal ['a']), .atom (.special []), .atom (.literal ['b']),
    .atom (.literal []), .atom (.special ['c', '\r', '\n'])] =
    "a\r\nb\r\nc\r\n".toList := by
  decide

end Node

end RegexGloss
