import RegexGloss.Proofs.Construct.Map
import RegexGloss.Proofs.Construct.Spans

/-!
# Constructs at other places

Where a construct starts matters to its nodes only through the positions of their bars, which no
description mentions, and to its entries only through their ends. So the nodes and the entries at
one place are those at another one, shifted (`Construct.nodes_add`, `Construct.spans_add`).
-/

namespace RegexGloss

/-- A span that lies so many glyphs further on. -/
def Span.shift (distance : Nat) (s : Span) : Span :=
  { s with start := s.start + distance, stop := s.stop + distance }

namespace Node

/-! ## Shifted nodes -/

mutual

/-- A node whose bars lie so many glyphs further on. -/
def shift (distance : Nat) : Node → Node
  | atom a => atom a
  | bar pos => bar (pos + distance)
  | group kind body => group kind (shiftAll distance body)
  | bare kind => bare kind
  | ifThen condition yes => ifThen (shiftAll distance condition) (shiftAll distance yes)
  | ifThenElse condition yes no =>
    ifThenElse (shiftAll distance condition) (shiftAll distance yes) (shiftAll distance no)
termination_by structural n => n

/-- Nodes whose bars lie so many glyphs further on. -/
def shiftAll (distance : Nat) : List Node → List Node
  | [] => []
  | n :: ns => shift distance n :: shiftAll distance ns
termination_by structural ns => ns

end

mutual

/-- Shifting changes the positions of bars and nothing else. -/
theorem shift_eq_map (distance : Nat) : (n : Node) → shift distance n = map id (· + distance) n
  | atom _ | bar _ | bare _ => rfl
  | group kind body => by
    rw [shift, map, shiftAll_eq_mapAll distance body]
    rfl
  | ifThen condition yes => by
    rw [shift, map, shiftAll_eq_mapAll distance condition, shiftAll_eq_mapAll distance yes]
  | ifThenElse condition yes no => by
    rw [shift, map, shiftAll_eq_mapAll distance condition, shiftAll_eq_mapAll distance yes,
      shiftAll_eq_mapAll distance no]

theorem shiftAll_eq_mapAll (distance : Nat) :
    (ns : List Node) → shiftAll distance ns = mapAll id (· + distance) ns
  | [] => rfl
  | n :: ns => by
    rw [shiftAll, mapAll, shift_eq_map distance n, shiftAll_eq_mapAll distance ns]

end

theorem shiftAll_eq_map (distance : Nat) (ns : List Node) :
    shiftAll distance ns = ns.map (shift distance) := by
  rw [shiftAll_eq_mapAll, mapAll_eq_map]
  exact List.map_congr_left fun n _ => (shift_eq_map distance n).symm

theorem shiftAll_append (distance : Nat) (ms ns : List Node) :
    shiftAll distance (ms ++ ns) = shiftAll distance ms ++ shiftAll distance ns := by
  rw [shiftAll_eq_map, shiftAll_eq_map, shiftAll_eq_map, List.map_append]

@[simp]
theorem kind_shift (distance : Nat) (n : Node) : (shift distance n).kind = n.kind := by
  rw [shift_eq_map, kind_map]

/-- Shifting keeps the number of bars. -/
theorem bars_shiftAll (distance : Nat) (ns : List Node) : bars (shiftAll distance ns) = bars ns := by
  rw [shiftAll_eq_mapAll, bars_mapAll]

/-- A choice is shifted with its branches. -/
theorem shift_choose (distance : Nat) (condition branches : List Node) :
    shift distance (choose condition branches) =
      choose (shiftAll distance condition) (shiftAll distance branches) := by
  rw [shift_eq_map, map_choose, ← shiftAll_eq_mapAll, ← shiftAll_eq_mapAll]

/-- The text of nodes does not mention where they lie. -/
theorem renderFrom_shiftAll (distance indent : Nat) (run : Text) (ns : List Node) :
    renderFrom indent run (shiftAll distance ns) = renderFrom indent run ns := by
  rw [shiftAll_eq_mapAll, renderFrom_mapAll_id]

@[simp]
theorem describe_shift (distance : Nat) (n : Node) : (shift distance n).describe = n.describe := by
  rw [shift_eq_map, describe_map_id]

end Node

/-- The entry of a shifted node is a shifted entry. -/
theorem Span.ofNode_shift (distance : Nat) (n : Node) (start stop : Nat) :
    ofNode (n.shift distance) (start + distance) (stop + distance) =
      (ofNode n start stop).shift distance := by
  rw [ofNode, Node.kind_shift, Node.describe_shift]
  rfl

namespace Construct

/-! ## Shifted constructs -/

mutual

/-- The nodes of a construct that stands further on. -/
theorem nodes_add (o : Options) (offset distance : Nat) :
    (c : Construct) → c.nodes o (offset + distance) = Node.shiftAll distance (c.nodes o offset)
  | .skipped _ _ | .atom _ _ | .bar | .bare _ _ => rfl
  | .run first more => by
    rw [nodes, nodes, Node.shiftAll_eq_map, List.map_map]
    rfl
  | .group heading extra body => by
    rw [nodes_group, nodes_group, groupNode, groupNode, Nat.add_right_comm,
      nodesAll_add o _ distance body]
    rfl
  | .conditional condition branches => by
    -- the distance is moved behind the other summands of each offset
    rw [nodes_conditional, nodes_conditional, choiceNode, choiceNode,
      Nat.add_right_comm offset distance 3, Nat.add_right_comm offset distance 4,
      Nat.add_right_comm (offset + 4) distance, nodesAll_add o _ distance condition,
      nodesAll_add o _ distance branches, ← Node.shift_choose]
    rfl

/-- The nodes of constructs that stand further on. -/
theorem nodesAll_add (o : Options) (offset distance : Nat) :
    (cs : List Construct) →
      nodesAll o (offset + distance) cs = Node.shiftAll distance (nodesAll o offset cs)
  | [] => rfl
  | c :: cs => by
    rw [nodesAll_cons, nodesAll_cons, Node.shiftAll_append, nodes_add o offset distance c,
      Nat.add_right_comm, nodesAll_add o _ distance cs]

end

theorem groupNode_add (o : Options) (offset distance : Nat) (heading : Option GroupKind)
    (extra : Nat) (body : List Construct) :
    groupNode o (offset + distance) heading extra body =
      (groupNode o offset heading extra body).shift distance := by
  have h := nodes_add o offset distance (.group heading extra body)
  rw [nodes_group, nodes_group] at h
  exact (List.cons.inj h).1

theorem choiceNode_add (o : Options) (offset distance : Nat) (condition branches : List Construct) :
    choiceNode o (offset + distance) condition branches =
      (choiceNode o offset condition branches).shift distance := by
  -- the choice is the only node inside the node of its conditional
  have h := nodes_add o offset distance (.conditional condition branches)
  rw [nodes_conditional, nodes_conditional] at h
  exact (List.cons.inj (Node.group.inj (List.cons.inj h).1).2).1

mutual

/-- The entries of a construct that stands further on. -/
theorem spans_add (o : Options) (offset distance : Nat) :
    (c : Construct) → c.spans o (offset + distance) = (c.spans o offset).map (Span.shift distance)
  | .skipped _ _ => rfl
  | .run first more => by
    simp only [spans, List.map_cons, List.map_nil, Span.shift, Nat.add_right_comm offset distance,
      Nat.add_right_comm (offset + first.extra) distance]
  | .atom a extra => by
    rw [spans, spans, Nat.add_right_comm, List.map_singleton, ← Span.ofNode_shift]
    rfl
  | .bar => rfl
  | .bare kind extra => by
    rw [spans, spans, Nat.add_right_comm, List.map_singleton, ← Span.ofNode_shift]
    rfl
  | .group heading extra body => by
    rw [spans, spans, List.map_append, List.map_singleton, groupNode_add, ← Span.ofNode_shift,
      Nat.add_right_comm offset distance (extra + 1), spansAll_add o _ distance body,
      Nat.add_right_comm (offset + (extra + 1)) distance]
  | .conditional condition branches => by
    have hgroup : Node.group .conditional [(choiceNode o offset condition branches).shift distance] =
        (Node.group .conditional [choiceNode o offset condition branches]).shift distance := rfl
    simp only [spans, List.map_append, List.map_cons, List.map_nil, choiceNode_add, hgroup,
      ← Span.ofNode_shift, Nat.add_right_comm offset distance,
      Nat.add_right_comm (offset + 3) distance, Nat.add_right_comm (offset + 4) distance,
      Nat.add_right_comm (offset + 3 + widthAll condition) distance,
      Nat.add_right_comm (offset + 4 + widthAll condition) distance,
      spansAll_add o _ distance condition, spansAll_add o _ distance branches]

/-- The entries of constructs that stand further on. -/
theorem spansAll_add (o : Options) (offset distance : Nat) :
    (cs : List Construct) →
      spansAll o (offset + distance) cs = (spansAll o offset cs).map (Span.shift distance)
  | [] => rfl
  | c :: cs => by
    rw [spansAll_cons, spansAll_cons, List.map_append, spans_add o offset distance c,
      Nat.add_right_comm, spansAll_add o _ distance cs]

end

end Construct

end RegexGloss
