import Mathlib.Algebra.GroupWithZero.Nat
import RegexGloss.Assembly

/-!
# Constructs

A pattern in which every group is closed is a list of constructs: runs of literals, other atoms,
bars, groups with the constructs inside them, and the blanks and comments between them. This is
the concrete form of a pattern. It keeps how many glyphs each token takes up, so everything that
reading the pattern leaves behind can be computed from it by recursion:

* `Construct.lexemes`: the tokens that the construct is written with;
* `Construct.nodes`: the nodes that it adds to the tree;
* `Construct.marks`: the marks that it leaves for the index.

`Construct.Proper` says which constructs can be read at all, and that neighbouring literals are
collected in one run.
-/

namespace RegexGloss

/-! ## Branches of a conditional -/

namespace Node

/-- The choice between the branches that the first bar separates. Later bars stay in the second
branch. -/
def choose (condition branches : List Node) : Node :=
  match branches.dropWhile (·.bar?.isNone) with
  | [] => ifThen condition branches
  | _ :: no => ifThenElse condition (branches.takeWhile (·.bar?.isNone)) no

/-- The number of bars in a list of nodes, those inside groups left out. -/
def bars (ns : List Node) : Nat := ns.countP (·.bar?.isSome)

theorem bars_append (ms ns : List Node) : bars (ms ++ ns) = bars ms + bars ns :=
  List.countP_append

/-- The first bar in a list of nodes is found unless there is none. -/
theorem findSome?_bar?_eq_none_iff (ns : List Node) :
    ns.findSome? bar? = none ↔ bars ns = 0 := by
  simp [bars, List.countP_eq_zero]

/-- No bar stands before the first bar. -/
theorem bars_takeWhile (ns : List Node) : bars (ns.takeWhile (·.bar?.isNone)) = 0 := by
  rw [bars, List.countP_eq_zero]
  intro n hn
  have := List.all_eq_true.1 List.all_takeWhile n hn
  simpa using this

/-- The nodes before the first bar are followed by that bar, or make up the whole list. -/
theorem exists_split_bars (ns : List Node) :
    (ns.dropWhile (·.bar?.isNone) = [] ∧ bars ns = 0) ∨
      ∃ pos no, ns.dropWhile (·.bar?.isNone) = bar pos :: no ∧
        ns = ns.takeWhile (·.bar?.isNone) ++ bar pos :: no ∧ bars ns = bars no + 1 := by
  have hsplit := List.takeWhile_append_dropWhile (p := fun m : Node => m.bar?.isNone) (l := ns)
  -- the first bar and those behind it are all the bars there are
  have hbars : bars ns = bars (ns.dropWhile (·.bar?.isNone)) := by
    rw [← hsplit, bars_append, bars_takeWhile, Nat.zero_add, hsplit]
  cases hdrop : ns.dropWhile (·.bar?.isNone) with
  | nil =>
    rw [hdrop] at hbars
    exact .inl ⟨rfl, hbars⟩
  | cons n no =>
    have hn := List.head?_dropWhile_not (fun m : Node => m.bar?.isNone) ns
    rw [hdrop] at hn hsplit hbars
    cases n with
    | bar pos =>
      refine .inr ⟨pos, no, rfl, hsplit.symm, ?_⟩
      rw [hbars, bars, List.countP_cons_of_pos rfl, bars]
    | _ => cases hn

/-- Branches without a bar are one branch of a choice. -/
theorem choose_of_bars_eq_zero (condition : List Node) {branches : List Node}
    (h : bars branches = 0) : choose condition branches = ifThen condition branches := by
  rcases exists_split_bars branches with ⟨hdrop, -⟩ | ⟨pos, no, -, -, hbars⟩
  · simp only [choose, hdrop]
  · omega

/-- The first bar separates two branches of a choice. -/
theorem choose_append_bar (condition : List Node) {yes : List Node} (h : bars yes = 0) (pos : Nat)
    (no : List Node) :
    choose condition (yes ++ bar pos :: no) = ifThenElse condition yes no := by
  have hyes : ∀ n ∈ yes, n.bar?.isNone = true := by
    simpa [bars, List.countP_eq_zero] using h
  have htake : (yes ++ bar pos :: no).takeWhile (·.bar?.isNone) = yes := by
    rw [List.takeWhile_append_of_pos hyes, List.takeWhile_cons_of_neg (by simp [bar?]),
      List.append_nil]
  have hdrop : (yes ++ bar pos :: no).dropWhile (·.bar?.isNone) = bar pos :: no := by
    rw [List.dropWhile_append_of_pos hyes, List.dropWhile_cons_of_neg (by simp [bar?])]
  simp only [choose, hdrop, htake]

/-- Branches without a bar are one branch of a choice. Others are separated by the first bar. -/
theorem choose_eq_or (condition branches : List Node) :
    choose condition branches = ifThen condition branches ∨
      ∃ yes pos no, branches = yes ++ bar pos :: no ∧
        choose condition branches = ifThenElse condition yes no := by
  rcases exists_split_bars branches with ⟨hdrop, -⟩ | ⟨pos, no, hdrop, hbranches, -⟩
  · exact .inl (by simp only [choose, hdrop])
  · exact .inr ⟨_, pos, no, hbranches, by simp only [choose, hdrop]⟩

@[simp]
theorem kind_choose (condition branches : List Node) :
    (choose condition branches).kind = .conditional := by
  rcases choose_eq_or condition branches with h | ⟨yes, pos, no, -, h⟩
  · rw [h]
    rfl
  · rw [h]
    rfl

/-- Branches make up a choice exactly if at most one bar separates them. -/
theorem ofBranches_eq_ok_iff (condition branches : List Node) (n : Node) :
    ofBranches condition branches = .ok n ↔ bars branches ≤ 1 ∧ choose condition branches = n := by
  unfold ofBranches splitBranches choose
  rcases exists_split_bars branches with ⟨hdrop, hbars⟩ | ⟨pos, no, hdrop, -, hbars⟩
  · simp [hdrop, hbars, Except.map, choice]
  · rw [hbars, hdrop]
    -- a second bar would stand among the nodes behind the first one
    cases hsecond : no.findSome? bar? with
    | none =>
      have hno : bars no = 0 := (findSome?_bar?_eq_none_iff no).1 hsecond
      simp [hno, hsecond, Except.map, choice]
    | some second =>
      have hno : bars no ≠ 0 := by
        rw [Ne, ← findSome?_bar?_eq_none_iff, hsecond]
        simp
      simp [hno, hsecond, Except.map]

end Node

/-! ## Constructs and their tokens -/

/-- A literal of a pattern. Its text never starts with a space, because a space is spelled out. -/
structure Literal where
  /-- The text that describes the literal. -/
  text : Text
  /-- The number of glyphs that write the literal, after the first one. -/
  extra : Nat
  /-- The text does not start with a space. -/
  dropSpaces_text : Text.dropSpaces text = text
  deriving DecidableEq, Repr

namespace Literal

/-- The number of glyphs that write a literal. -/
def width (l : Literal) : Nat := l.extra + 1

/-- The number of glyphs that write literals. -/
def widthAll (ls : List Literal) : Nat := (ls.map width).sum

theorem widthAll_cons (l : Literal) (ls : List Literal) :
    widthAll (l :: ls) = l.extra + 1 + widthAll ls := rfl

/-- The token of a literal. -/
def lexeme (l : Literal) : Lexeme := ⟨.atom (.literal l.text), l.width⟩

/-- The node of a literal. -/
def node (l : Literal) : Node := .atom (.literal l.text)

/-- The marks of literals that follow each other from an offset on, the latest first. -/
def marksAll (offset : Nat) : List Literal → List Mark
  | [] => []
  | l :: ls => marksAll (offset + l.width) ls ++ [.node l.node offset (offset + l.extra)]

end Literal

/-- A construct of a pattern. The numbers count the glyphs of its first token after the first
glyph. -/
inductive Construct where
  /-- A blank or a comment that is skipped. -/
  | skipped (comment : Bool) (extra : Nat)
  /-- One or more literals that follow each other. -/
  | run (first : Literal) (more : List Literal)
  /-- Another construct that holds no constructs. -/
  | atom (atom : Atom) (extra : Nat)
  /-- A bar between alternatives. -/
  | bar
  /-- A group that has no body. -/
  | bare (kind : GroupKind) (extra : Nat)
  /-- A group with its body. Plain parentheses have no heading. -/
  | group (heading : Option GroupKind) (extra : Nat) (body : List Construct)
  /-- A conditional with its condition and its branches, the bar between them included. -/
  | conditional (condition branches : List Construct)
  deriving Repr

namespace Construct

/-- The token of a closing parenthesis. -/
def closing : Lexeme := ⟨.close, 1⟩

/-- A closing parenthesis is a token by itself. -/
theorem lex_closing (skipping : Bool) (t : Text) :
    Lexeme.lex skipping (')' :: t) = closing :: Lexeme.lex skipping t := by
  cases skipping <;> rfl

/-- The token that opens a group. -/
def opening (heading : Option GroupKind) (extra : Nat) : Lexeme :=
  ⟨heading.elim .openPlain .openGroup, extra + 1⟩

/-- The token that opens a conditional together with its condition. -/
def openingCondition : Lexeme := ⟨.openCondition, 3⟩

mutual

/-- The tokens of a construct. -/
def lexemes : Construct → List Lexeme
  | skipped comment extra => [⟨if comment then .comment else .blank, extra + 1⟩]
  | run first more => (first :: more).map Literal.lexeme
  | atom a extra => [⟨.atom a, extra + 1⟩]
  | bar => [⟨.bar, 1⟩]
  | bare kind extra => [⟨.bareGroup kind, extra + 1⟩]
  | group heading extra body => opening heading extra :: (lexemesAll body ++ [closing])
  | conditional condition branches =>
    openingCondition :: (lexemesAll condition ++ closing :: (lexemesAll branches ++ [closing]))
termination_by structural c => c

/-- The tokens of constructs that follow each other. -/
def lexemesAll : List Construct → List Lexeme
  | [] => []
  | c :: cs => lexemes c ++ lexemesAll cs
termination_by structural cs => cs

end

/-- The number of glyphs of a construct. -/
def width (c : Construct) : Nat := (c.lexemes.map Lexeme.width).sum

/-- The number of glyphs of constructs that follow each other. -/
def widthAll (cs : List Construct) : Nat := ((lexemesAll cs).map Lexeme.width).sum

@[simp]
theorem lexemesAll_nil : lexemesAll [] = [] := rfl

@[simp]
theorem lexemesAll_cons (c : Construct) (cs : List Construct) :
    lexemesAll (c :: cs) = c.lexemes ++ lexemesAll cs := rfl

theorem lexemesAll_append (cs ds : List Construct) :
    lexemesAll (cs ++ ds) = lexemesAll cs ++ lexemesAll ds := by
  induction cs with
  | nil => rfl
  | cons c cs ih => simp [ih]

@[simp]
theorem widthAll_nil : widthAll [] = 0 := rfl

@[simp]
theorem widthAll_cons (c : Construct) (cs : List Construct) :
    widthAll (c :: cs) = c.width + widthAll cs := by
  simp [widthAll, width]

theorem widthAll_append (cs ds : List Construct) :
    widthAll (cs ++ ds) = widthAll cs + widthAll ds := by
  simp [widthAll, lexemesAll_append]

@[simp]
theorem width_skipped (comment : Bool) (extra : Nat) : (skipped comment extra).width = extra + 1 :=
  rfl

@[simp]
theorem width_run (first : Literal) (more : List Literal) :
    (run first more).width = first.width + Literal.widthAll more := by
  simp [width, lexemes, Literal.lexeme, Literal.widthAll, Function.comp_def]

@[simp]
theorem width_atom (a : Atom) (extra : Nat) : (atom a extra).width = extra + 1 := rfl

@[simp]
theorem width_bar : bar.width = 1 := rfl

@[simp]
theorem width_bare (kind : GroupKind) (extra : Nat) : (bare kind extra).width = extra + 1 := rfl

@[simp]
theorem width_group (heading : Option GroupKind) (extra : Nat) (body : List Construct) :
    (group heading extra body).width = extra + 1 + widthAll body + 1 := by
  simp [width, widthAll, lexemes, opening, closing]
  omega

@[simp]
theorem width_conditional (condition branches : List Construct) :
    (conditional condition branches).width = widthAll condition + widthAll branches + 5 := by
  simp [width, widthAll, lexemes, openingCondition, closing]
  omega

/-- Every construct is written with at least one glyph. -/
theorem width_pos (c : Construct) : 0 < c.width := by
  cases c with
  | skipped | atom | bar | bare => exact Nat.succ_pos _
  | run first more =>
    rw [width_run, Literal.width]
    omega
  | group heading extra body =>
    rw [width_group]
    exact Nat.succ_pos _
  | conditional condition branches =>
    rw [width_conditional]
    exact Nat.succ_pos _

theorem lexemes_ne_nil (c : Construct) : c.lexemes ≠ [] := by
  intro hnil
  have hpos := c.width_pos
  rw [width, hnil] at hpos
  exact Nat.lt_irrefl 0 hpos

theorem lexemesAll_eq_nil_iff {cs : List Construct} : lexemesAll cs = [] ↔ cs = [] := by
  cases cs with
  | nil => simp
  | cons c cs => simp [lexemes_ne_nil]

/-! ## What constructs add to a tree -/

mutual

/-- The nodes of a construct that starts at an offset. -/
def nodes (o : Options) (offset : Nat) : Construct → List Node
  | skipped _ _ => []
  | run first more => (first :: more).map Literal.node
  | atom a _ => [.atom a]
  | bar => [.bar offset]
  | bare kind _ => [.bare kind]
  | group heading extra body =>
    [.group (heading.getD (Assembly.plainKind o)) (nodesAll o (offset + (extra + 1)) body)]
  | conditional condition branches =>
    [.group .conditional
      [.choose (nodesAll o (offset + 3) condition)
        (nodesAll o (offset + 4 + widthAll condition) branches)]]
termination_by structural c => c

/-- The nodes of constructs that follow each other from an offset on. -/
def nodesAll (o : Options) (offset : Nat) : List Construct → List Node
  | [] => []
  | c :: cs => nodes o offset c ++ nodesAll o (offset + c.width) cs
termination_by structural cs => cs

end

/-- The node of a group that starts at an offset. -/
def groupNode (o : Options) (offset : Nat) (heading : Option GroupKind) (extra : Nat)
    (body : List Construct) : Node :=
  .group (heading.getD (Assembly.plainKind o)) (nodesAll o (offset + (extra + 1)) body)

/-- The choice of a conditional that starts at an offset. -/
def choiceNode (o : Options) (offset : Nat) (condition branches : List Construct) : Node :=
  .choose (nodesAll o (offset + 3) condition)
    (nodesAll o (offset + 4 + widthAll condition) branches)

@[simp]
theorem nodesAll_nil (o : Options) (offset : Nat) : nodesAll o offset [] = [] := rfl

@[simp]
theorem nodesAll_cons (o : Options) (offset : Nat) (c : Construct) (cs : List Construct) :
    nodesAll o offset (c :: cs) = c.nodes o offset ++ nodesAll o (offset + c.width) cs := rfl

theorem nodesAll_append (o : Options) (offset : Nat) (cs ds : List Construct) :
    nodesAll o offset (cs ++ ds) =
      nodesAll o offset cs ++ nodesAll o (offset + widthAll cs) ds := by
  induction cs generalizing offset with
  | nil => simp
  | cons c cs ih => simp [ih, Nat.add_assoc]

theorem nodes_group (o : Options) (offset : Nat) (heading : Option GroupKind) (extra : Nat)
    (body : List Construct) :
    (group heading extra body).nodes o offset = [groupNode o offset heading extra body] := rfl

theorem nodes_conditional (o : Options) (offset : Nat) (condition branches : List Construct) :
    (conditional condition branches).nodes o offset =
      [.group .conditional [choiceNode o offset condition branches]] := rfl

/-- Whether a construct is a run of literals. -/
def isRun : Construct → Bool
  | run _ _ => true
  | _ => false

/-- Whether a construct is a bar. -/
def isBar : Construct → Bool
  | bar => true
  | _ => false

/-- The bars of a tree are the bars among its constructs. -/
theorem bars_nodesAll (o : Options) (offset : Nat) (cs : List Construct) :
    Node.bars (nodesAll o offset cs) = cs.countP isBar := by
  induction cs generalizing offset with
  | nil => rfl
  | cons c cs ih =>
    rw [nodesAll_cons, Node.bars_append, ih, List.countP_cons, Nat.add_comm]
    -- a group hides the bars of its body, so only a construct that is a bar counts
    congr 1
    cases c <;> simp [nodes, Node.bars, Node.bar?, isBar, Literal.node, List.countP_eq_zero]

/-! ## What constructs tell an index -/

mutual

/-- The marks of a construct that starts at an offset, the latest first. A conditional is marked
twice, from its condition to its branches and as a whole. -/
def marks (o : Options) (offset : Nat) : Construct → List Mark
  | skipped _ _ => [.gap]
  | run first more => Literal.marksAll offset (first :: more)
  | atom a extra => [.node (.atom a) offset (offset + extra)]
  | bar => [.node (.bar offset) offset offset]
  | bare kind extra => [.node (.bare kind) offset (offset + extra), .gap]
  | group heading extra body =>
    .node (groupNode o offset heading extra body) offset
        (offset + (extra + 1) + widthAll body) ::
      (marksAll o (offset + (extra + 1)) body ++ [.gap])
  | conditional condition branches =>
    -- the choice is marked from the parenthesis of its condition on
    let choice := choiceNode o offset condition branches
    .node (.group .conditional [choice]) offset
        (offset + 4 + widthAll condition + widthAll branches) ::
      .node choice (offset + 2) (offset + 3 + widthAll condition + widthAll branches) ::
      (marksAll o (offset + 4 + widthAll condition) branches ++
        .gap :: (marksAll o (offset + 3) condition ++ [.gap]))
termination_by structural c => c

/-- The marks of constructs that follow each other from an offset on, the latest first. -/
def marksAll (o : Options) (offset : Nat) : List Construct → List Mark
  | [] => []
  | c :: cs => marksAll o (offset + c.width) cs ++ marks o offset c
termination_by structural cs => cs

end

@[simp]
theorem marksAll_nil (o : Options) (offset : Nat) : marksAll o offset [] = [] := rfl

@[simp]
theorem marksAll_cons (o : Options) (offset : Nat) (c : Construct) (cs : List Construct) :
    marksAll o offset (c :: cs) = marksAll o (offset + c.width) cs ++ c.marks o offset := rfl

theorem marksAll_append (o : Options) (offset : Nat) (cs ds : List Construct) :
    marksAll o offset (cs ++ ds) =
      marksAll o (offset + widthAll cs) ds ++ marksAll o offset cs := by
  induction cs generalizing offset with
  | nil => simp
  | cons c cs ih => simp [ih, Nat.add_assoc]

/-! ## Well-formed constructs -/

/-- Constructs do not start with a run of literals. -/
def StartsNoRun (cs : List Construct) : Prop := ∀ c ∈ cs.head?, c.isRun = false

/-- Constructs do not end with a run of literals. -/
def EndsNoRun (cs : List Construct) : Prop := ∀ c ∈ cs.getLast?, c.isRun = false

mutual

/-- At most one bar stands between the branches of a conditional, and all literals that follow
each other are in one run. -/
def Proper : Construct → Prop
  | atom a _ => a.kind ≠ .literal
  | group _ _ body => ProperAll body
  | conditional condition branches =>
    ProperAll condition ∧ ProperAll branches ∧ branches.countP isBar ≤ 1
  | skipped _ _ | run _ _ | bar | bare _ _ => True
termination_by structural c => c

/-- All constructs are proper, and no two runs of literals follow each other. -/
def ProperAll : List Construct → Prop
  | [] => True
  | c :: cs => Proper c ∧ (c.isRun → StartsNoRun cs) ∧ ProperAll cs
termination_by structural cs => cs

end

@[simp]
theorem properAll_nil : ProperAll [] := trivial

@[simp]
theorem properAll_cons (c : Construct) (cs : List Construct) :
    ProperAll (c :: cs) ↔ c.Proper ∧ (c.isRun → StartsNoRun cs) ∧ ProperAll cs := Iff.rfl

/-- Constructs in two parts are proper if both parts are and no run of literals goes on from the
first part into the second. -/
theorem properAll_append_iff (cs ds : List Construct) :
    ProperAll (cs ++ ds) ↔ ProperAll cs ∧ ProperAll ds ∧ (EndsNoRun cs ∨ StartsNoRun ds) := by
  induction cs with
  | nil => simp [EndsNoRun]
  | cons c cs ih =>
    -- the second part meets only the last construct of the first one
    cases cs with
    | nil => cases hc : c.isRun <;> simp [StartsNoRun, EndsNoRun, hc, and_comm]
    | cons d cs =>
      have hstart : StartsNoRun (d :: cs ++ ds) ↔ StartsNoRun (d :: cs) := by simp [StartsNoRun]
      have hlast : EndsNoRun (c :: d :: cs) ↔ EndsNoRun (d :: cs) := by simp [EndsNoRun]
      rw [List.cons_append, properAll_cons, ih, properAll_cons c, hstart, hlast, and_assoc,
        and_assoc]

theorem properAll_singleton {c : Construct} (h : c.Proper) : ProperAll [c] :=
  ⟨h, fun _ => by simp [StartsNoRun], trivial⟩

/-- A construct other than a run of literals can stand behind any others. -/
theorem properAll_concat {cs : List Construct} {c : Construct} (hcs : ProperAll cs) (hc : c.Proper)
    (hrun : c.isRun = false) : ProperAll (cs ++ [c]) := by
  refine (properAll_append_iff _ _).2 ⟨hcs, properAll_singleton hc, .inr ?_⟩
  simpa [StartsNoRun] using hrun

end Construct

end RegexGloss
