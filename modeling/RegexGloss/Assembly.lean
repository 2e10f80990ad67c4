import RegexGloss.Fault
import RegexGloss.Mark
import RegexGloss.Token

/-!
# From tokens to trees

Tokens are taken one at a time, and the groups that are open wait on a stack. A closing parenthesis
makes a node of the innermost open group; at the end of the pattern no group may be open.

A conditional `(?(condition)yes|no)` opens twice. Its condition is closed by the first parenthesis,
and the branches by the second. The bars of the branches are looked at only when these are
complete, because at most one of them may stand outside of all groups.

Reading stops at the first fault (`Halt`). What was read and marked up to there is kept.
-/

namespace RegexGloss

/-- A group that is open, with the nodes before it, the latest first. -/
inductive Frame where
  /-- A group whose parenthesis stands at `start`. -/
  | group (start : Nat) (kind : GroupKind) (before : List Node)
  /-- A conditional whose parenthesis stands at `start`, in its condition. -/
  | condition (start : Nat) (before : List Node)
  /-- A conditional whose parenthesis stands at `start`, in its branches. -/
  | branches (start : Nat) (condition : List Node) (before : List Node)
  deriving DecidableEq, Repr

/-- A tree that is being put together. -/
structure Assembly where
  /-- The number of glyphs before the next token. -/
  offset : Nat
  /-- The open groups, the innermost first. -/
  frames : List Frame := []
  /-- The nodes of the innermost open group, the latest first. -/
  nodes : List Node := []
  /-- The marks left so far, the latest first. -/
  marks : List Mark := []
  deriving DecidableEq, Repr

/-- A fault and what had been put together when it showed. -/
structure Halt where
  /-- What is wrong. -/
  fault : Fault
  /-- What was read before. Reading can be taken up again at its offset. -/
  reached : Assembly
  deriving DecidableEq, Repr

/-- Splits the branches of a conditional at the bar between them. If there is a second bar, its
position is reported. -/
def Node.splitBranches (ns : List Node) : Except Nat (List Node × Option (List Node)) :=
  match ns.dropWhile (·.bar?.isNone) with
  | [] => .ok (ns, none)
  | _ :: no =>
    match no.findSome? bar? with
    | none => .ok (ns.takeWhile (·.bar?.isNone), some no)
    | some pos => .error pos

/-- The choice that a condition and its branches make up. -/
def Node.ofBranches (condition branches : List Node) : Except Nat Node :=
  (splitBranches branches).map fun r => choice condition r.1 r.2

namespace Assembly

/-! ## Steps -/

/-- Stops at a fault. -/
def halt (a : Assembly) (cause : Cause) (pos : Nat) : Except Halt Assembly :=
  .error ⟨⟨cause, pos⟩, a⟩

/-- Goes on by so many glyphs. -/
def advance (a : Assembly) (width : Nat) : Assembly := { a with offset := a.offset + width }

/-- Marks a place that no run of literals goes across. -/
def gap (a : Assembly) : Assembly := { a with marks := .gap :: a.marks }

/-- Marks a node that started at a glyph and ends before the next token. -/
def mark (a : Assembly) (n : Node) (start : Nat) : Assembly :=
  { a with marks := .node n start (a.offset - 1) :: a.marks }

/-- Adds a node that takes up the next glyphs. -/
def leaf (a : Assembly) (n : Node) (width : Nat) : Assembly :=
  ({ a with nodes := n :: a.nodes }.advance width).mark n a.offset

/-- Opens a group that takes up the next glyphs. -/
def enter (a : Assembly) (frame : Frame) (width : Nat) : Assembly :=
  { a with frames := frame :: a.frames, nodes := [] }.gap.advance width

/-- The kind of a plain group. -/
def plainKind (o : Options) : GroupKind := if o.explicitCapture then .nonCapturing else .capture

/-- Takes a closing parenthesis. -/
def close (a : Assembly) : Except Halt Assembly :=
  match a.frames with
  | [] => a.halt .surplusClose a.offset
  | .group start kind before :: frames =>
    let node := Node.group kind a.nodes.reverse
    .ok (({ a with frames, nodes := node :: before }.advance 1).mark node start)
  | .condition start before :: frames =>
    let frame := Frame.branches start a.nodes.reverse before
    .ok ({ a with frames := frame :: frames, nodes := [] }.advance 1).gap
  | .branches start condition before :: frames =>
    match Node.ofBranches condition a.nodes.reverse with
    | .error pos => a.halt .surplusBar pos
    | .ok choice =>
      let node := Node.group .conditional [choice]
      let a := a.mark choice (start + 2)
      .ok (({ a with frames, nodes := node :: before }.advance 1).mark node start)

/-- Takes a token. -/
def step (o : Options) (a : Assembly) (l : Lexeme) : Except Halt Assembly :=
  match l.token with
  | .blank | .comment => .ok (a.gap.advance l.width)
  | .atom atom => .ok (a.leaf (.atom atom) l.width)
  | .bar => .ok (a.leaf (.bar a.offset) l.width)
  | .bareGroup kind => .ok (a.gap.leaf (.bare kind) l.width)
  | .openPlain => .ok (a.enter (.group a.offset (plainKind o) a.nodes) l.width)
  | .openGroup kind => .ok (a.enter (.group a.offset kind a.nodes) l.width)
  | .openCondition => .ok (a.enter (.condition a.offset a.nodes) l.width)
  | .close => a.close
  | .truncatedEscape => (a.advance l.width).halt .endOfPattern (a.offset + l.width)
  | .unknownGroup => (a.gap.advance l.width).halt .unknownGroup a.offset

/-- Checks at the end of the pattern that no group is open. The branches of a conditional are
complete then too, so a surplus bar among them is found first. -/
def finish (a : Assembly) : Except Halt Assembly :=
  match a.frames with
  | [] => .ok a
  | .group start _ _ :: _ => a.halt .unclosedGroup start
  | .condition start _ :: _ => a.halt .unclosedGroup (start + 2)
  | .branches start condition _ :: _ =>
    match Node.ofBranches condition a.nodes.reverse with
    | .error pos => a.halt .surplusBar pos
    | .ok choice => (a.mark choice (start + 2)).halt .unclosedGroup start

/-! ## Runs -/

/-- Takes tokens one after the other. -/
def run (o : Options) (a : Assembly) (ls : List Lexeme) : Except Halt Assembly :=
  ls.foldlM (step o) a

/-- The tree of a whole pattern: its tokens are taken from an offset on, and no group may stay
open. -/
def assemble (o : Options) (offset : Nat) (ls : List Lexeme) : Except Halt Assembly :=
  run o { offset } ls >>= finish

/-- The nodes that were put together outside of all open groups, in order. -/
def tree (a : Assembly) : List Node := a.nodes.reverse

@[simp]
theorem run_nil (o : Options) (a : Assembly) : run o a [] = .ok a := rfl

@[simp]
theorem run_cons (o : Options) (a : Assembly) (l : Lexeme) (ls : List Lexeme) :
    run o a (l :: ls) = step o a l >>= fun a => run o a ls := rfl

/-- Tokens in two parts are taken part by part. -/
theorem run_append (o : Options) (a : Assembly) (ls ms : List Lexeme) :
    run o a (ls ++ ms) = run o a ls >>= fun a => run o a ms := by
  simp [run, List.foldlM_append]

end Assembly

end RegexGloss
