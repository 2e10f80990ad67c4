import RegexGloss.Node.Render
import RegexGloss.Proofs.Construct.Basic

/-!
# Trees with other kinds and places

`Node.map` changes the kinds of all groups of a tree and the positions of all its bars, at any
depth, and nothing else. Choices are split at the same bars before and after
(`Node.map_choose`). No description mentions the position of a bar, so a tree in which only these
are changed is explained as before (`Node.render_map_id`).
-/

namespace RegexGloss

namespace Node

mutual

/-- A node with other kinds of groups and its bars at other places. -/
def map (kinds : GroupKind → GroupKind) (places : Nat → Nat) : Node → Node
  | atom a => atom a
  | bar pos => bar (places pos)
  | group kind body => group (kinds kind) (mapAll kinds places body)
  | bare kind => bare (kinds kind)
  | ifThen condition yes => ifThen (mapAll kinds places condition) (mapAll kinds places yes)
  | ifThenElse condition yes no =>
    ifThenElse (mapAll kinds places condition) (mapAll kinds places yes) (mapAll kinds places no)
termination_by structural n => n

/-- Nodes with other kinds of groups and their bars at other places. -/
def mapAll (kinds : GroupKind → GroupKind) (places : Nat → Nat) : List Node → List Node
  | [] => []
  | n :: ns => map kinds places n :: mapAll kinds places ns
termination_by structural ns => ns

end

variable (kinds : GroupKind → GroupKind) (places : Nat → Nat)

theorem mapAll_eq_map (ns : List Node) : mapAll kinds places ns = ns.map (map kinds places) := by
  induction ns with
  | nil => rfl
  | cons n ns ih => rw [mapAll, ih, List.map_cons]

theorem mapAll_append (ms ns : List Node) :
    mapAll kinds places (ms ++ ns) = mapAll kinds places ms ++ mapAll kinds places ns := by
  rw [mapAll_eq_map, mapAll_eq_map, mapAll_eq_map, List.map_append]

@[simp]
theorem kind_map (n : Node) : (map kinds places n).kind = n.kind := by
  cases n <;> rfl

@[simp]
theorem literal?_map (n : Node) : (map kinds places n).literal? = n.literal? := by
  cases n <;> rfl

theorem isNone_bar?_map (n : Node) : (map kinds places n).bar?.isNone = n.bar?.isNone := by
  cases n <;> rfl

/-- The number of bars stays the same. -/
theorem bars_mapAll (ns : List Node) : bars (mapAll kinds places ns) = bars ns := by
  have hbar (n : Node) : (map kinds places n).bar?.isSome = n.bar?.isSome := by cases n <;> rfl
  rw [bars, mapAll_eq_map, List.countP_map]
  simp only [Function.comp_def, hbar, bars]

/-- A choice is changed with its branches. -/
theorem map_choose (condition branches : List Node) :
    map kinds places (choose condition branches) =
      choose (mapAll kinds places condition) (mapAll kinds places branches) := by
  -- a node is a bar exactly if it was one, so the branches are split at the same bar
  have hbar : (fun n => (map kinds places n).bar?.isNone) = fun n => n.bar?.isNone :=
    funext (isNone_bar?_map kinds places)
  have htake : (mapAll kinds places branches).takeWhile (·.bar?.isNone) =
      mapAll kinds places (branches.takeWhile (·.bar?.isNone)) := by
    rw [mapAll_eq_map, mapAll_eq_map, List.takeWhile_map]
    simp only [Function.comp_def, hbar]
  have hdrop : (mapAll kinds places branches).dropWhile (·.bar?.isNone) =
      mapAll kinds places (branches.dropWhile (·.bar?.isNone)) := by
    rw [mapAll_eq_map, mapAll_eq_map, List.dropWhile_map]
    simp only [Function.comp_def, hbar]
  rw [choose, choose, hdrop, htake]
  cases branches.dropWhile (·.bar?.isNone) with
  | nil => rfl
  | cons bar no => rfl

mutual

/-- The text of a node does not mention where its bars are. -/
theorem render_map_id (indent : Nat) :
    (n : Node) → render indent (map id places n) = render indent n
  -- a bar is rendered as the same word wherever it is
  | atom _ | bar _ | bare _ => rfl
  | group kind body => by
    rw [map, render, render, renderFrom_mapAll_id]
    rfl
  | ifThen condition yes => by
    rw [map, render, render, renderFrom_mapAll_id, renderFrom_mapAll_id]
  | ifThenElse condition yes no => by
    rw [map, render, render, renderFrom_mapAll_id, renderFrom_mapAll_id, renderFrom_mapAll_id]

/-- The text of nodes does not mention where their bars are. -/
theorem renderFrom_mapAll_id (indent : Nat) (run : Text) :
    (ns : List Node) → renderFrom indent run (mapAll id places ns) = renderFrom indent run ns
  | [] => rfl
  | n :: ns => by
    rw [mapAll, renderFrom, renderFrom, literal?_map, render_map_id indent n]
    cases n.literal? with
    | none => rw [renderFrom_mapAll_id indent [] ns]
    | some text => exact renderFrom_mapAll_id indent (run ++ text) ns

end

theorem describe_map_id (n : Node) : (map id places n).describe = n.describe := by
  rw [describe, describe, render_map_id]

end Node

end RegexGloss
