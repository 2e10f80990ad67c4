import RegexGloss.CharClass
import RegexGloss.GroupKind
import RegexGloss.Quantifier

/-!
# Trees

A pattern is read as a list of nodes. A node is an atom, a bar between alternatives, a group with
the nodes inside it, a group without a body, or a choice between branches.

Equality of trees is decidable (`Node.instDecidableEq`); the position of a bar is part of it.
-/

namespace RegexGloss

/-! ## Nodes -/

/-- A construct that holds no other constructs. -/
inductive Atom where
  /-- Glyphs that stand for themselves. Neighbouring literals are described together. -/
  | literal (text : Text)
  /-- An anchor, an escape or another construct that has a description of its own. -/
  | special (text : Text)
  /-- A character class. -/
  | charClass (cls : CharClass)
  /-- A braced quantifier. -/
  | quantifier (bounds : Quantifier)
  deriving DecidableEq, Repr

/-- How an explanation describes an atom. -/
def Atom.describe : Atom → Text
  | literal text => text
  | special text => text
  | charClass cls => cls.describe
  | quantifier bounds => bounds.describe

/-- A construct of a pattern. -/
inductive Node where
  /-- A construct that holds no other constructs. -/
  | atom (atom : Atom)
  /-- The bar between two alternatives, with its position in the pattern. -/
  | bar (pos : Nat)
  /-- A group with its body. -/
  | group (kind : GroupKind) (body : List Node)
  /-- A group that has no body, such as `(?i)`. -/
  | bare (kind : GroupKind)
  /-- What is matched if a condition holds. -/
  | ifThen (condition yes : List Node)
  /-- What is matched if a condition holds, and what if it does not. -/
  | ifThenElse (condition yes no : List Node)
  deriving Repr

/-- The class of a node, by which an index tells its entries apart. -/
inductive NodeKind where
  /-- Glyphs that stand for themselves. -/
  | literal
  /-- A construct with a description of its own. -/
  | special
  /-- A character class. -/
  | charClass
  /-- A braced quantifier. -/
  | quantifier
  /-- A bar between alternatives. -/
  | alternation
  /-- A group, with a body or without. -/
  | group
  /-- A choice between branches. -/
  | conditional
  deriving DecidableEq, Repr

/-- The class of an atom. -/
def Atom.kind : Atom → NodeKind
  | literal _ => .literal
  | special _ => .special
  | charClass _ => .charClass
  | quantifier _ => .quantifier

namespace Node

/-- The class of a node. -/
def kind : Node → NodeKind
  | atom a => a.kind
  | bar _ => .alternation
  | group _ _ | bare _ => .group
  | ifThen _ _ | ifThenElse _ _ _ => .conditional

/-- The text of a literal. -/
def literal? : Node → Option Text
  | atom (.literal text) => some text
  | _ => none

/-- The position of a bar. -/
def bar? : Node → Option Nat
  | bar pos => some pos
  | _ => none

/-- Whether a node is a literal. -/
def isLiteral (n : Node) : Bool := n.literal?.isSome

/-- A choice between branches, the second of which may be missing. -/
def choice (condition yes : List Node) : Option (List Node) → Node
  | none => ifThen condition yes
  | some no => ifThenElse condition yes no

theorem isLiteral_eq_kind (n : Node) : n.isLiteral = (n.kind == .literal) := by
  match n with
  | atom (.literal _) => rfl
  | atom (.special _) => rfl
  | atom (.charClass _) => rfl
  | atom (.quantifier _) => rfl
  | bar _ => rfl
  | group _ _ => rfl
  | bare _ => rfl
  | ifThen _ _ => rfl
  | ifThenElse _ _ _ => rfl

theorem literal?_eq_some_iff (n : Node) (text : Text) :
    n.literal? = some text ↔ n = atom (.literal text) := by
  unfold literal?
  split <;> simp_all

/-! ## Equality -/

mutual

/-- Whether two nodes are the same. -/
def same : Node → Node → Bool
  | atom a, atom b => a == b
  | bar p, bar q => p == q
  | group j xs, group k ys => j == k && sameAll xs ys
  | bare j, bare k => j == k
  | ifThen c xs, ifThen d ys => sameAll c d && sameAll xs ys
  | ifThenElse c xs us, ifThenElse d ys vs => sameAll c d && sameAll xs ys && sameAll us vs
  | _, _ => false
termination_by structural n => n

/-- Whether two lists of nodes are the same, node by node. -/
def sameAll : List Node → List Node → Bool
  | [], [] => true
  | m :: ms, n :: ns => same m n && sameAll ms ns
  | _, _ => false
termination_by structural ns => ns

end

mutual

/-- The comparison of nodes decides their equality. -/
theorem same_eq_true_iff : (m n : Node) → (same m n = true ↔ m = n)
  | atom a, n => by cases n <;> simp [same]
  | bar p, n => by cases n <;> simp [same]
  | group j xs, n => by cases n <;> simp [same, sameAll_eq_true_iff xs]
  | bare j, n => by cases n <;> simp [same]
  | ifThen c xs, n => by
    cases n <;> simp [same, sameAll_eq_true_iff c, sameAll_eq_true_iff xs]
  | ifThenElse c xs us, n => by
    cases n <;>
      simp [same, sameAll_eq_true_iff c, sameAll_eq_true_iff xs, sameAll_eq_true_iff us, and_assoc]

/-- The comparison of lists of nodes decides their equality. -/
theorem sameAll_eq_true_iff : (ms ns : List Node) → (sameAll ms ns = true ↔ ms = ns)
  | [], ns => by cases ns <;> simp [sameAll]
  | m :: ms, ns => by
    cases ns <;> simp [sameAll, same_eq_true_iff m, sameAll_eq_true_iff ms]

end

instance instDecidableEq : DecidableEq Node := fun m n =>
  decidable_of_iff _ (same_eq_true_iff m n)

end Node

end RegexGloss
