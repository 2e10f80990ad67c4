import RegexGloss.Node.Basic

/-!
# Explanations of trees

Every node is described on lines of its own, except that neighbouring literals share one line. A
group indents its body by two spaces more than itself.

The text of one node has no line end behind it; a list of nodes is rendered as whole lines. The
branches of a choice are whole lines too, so a choice ends with a line end.
-/

namespace RegexGloss

namespace Text

/-- A line that holds a text. Nothing is written for an empty text. -/
def line (indent : Nat) (t : Text) : Text :=
  if t.isEmpty then [] else spaces indent ++ t ++ lineEnd

/-- A text as whole lines: it is given a line end unless it has one. Nothing is written for an
empty text. -/
def endLine (t : Text) : Text :=
  if t.isEmpty then [] else if endsLine t then t else t ++ lineEnd

/-- A label and the lines that it introduces: the indentation of the first line and the last line
end are left out of them, so that they start behind the label and end with it. -/
def labelled (indent : Nat) (label lines : Text) : Text :=
  spaces indent ++ label ++ dropSpaces (chomp lines) ++ lineEnd

end Text

open Text

namespace Node

mutual

/-- The text of a node at an indentation. -/
def render (indent : Nat) : Node → Text
  | atom a => spaces indent ++ a.describe
  | bar _ => spaces (indent + 2) ++ "or".toList
  | group kind body =>
    spaces indent ++ kind.describe ++ lineEnd ++ renderFrom (indent + 2) [] body ++
      spaces indent ++ "End Capture".toList
  | bare kind => spaces indent ++ kind.describe
  | ifThen condition yes =>
    labelled indent "if: ".toList (renderFrom indent [] condition) ++
      labelled indent "match: ".toList (renderFrom indent [] yes)
  | ifThenElse condition yes no =>
    labelled indent "if: ".toList (renderFrom indent [] condition) ++
      labelled indent "match: ".toList (renderFrom indent [] yes) ++
      labelled indent "else match: ".toList (renderFrom indent [] no)
termination_by structural n => n

/-- The lines of a list of nodes that follows the literals with the text `run`. -/
def renderFrom (indent : Nat) (run : Text) : List Node → Text
  | [] => line indent run
  | n :: ns =>
    match n.literal? with
    | some text => renderFrom indent (run ++ text) ns
    | none => line indent run ++ endLine (render indent n) ++ renderFrom indent [] ns
termination_by structural ns => ns

end

/-- The lines that explain a list of nodes at an indentation. -/
def renderAll (indent : Nat) (ns : List Node) : Text := renderFrom indent [] ns

/-- The description of a single node, without indentation in front. -/
def describe (n : Node) : Text := dropSpaces (render 0 n)

/-- A literal joins the run of literals before it. -/
theorem renderFrom_literal (indent : Nat) (run text : Text) (ns : List Node) :
    renderFrom indent run (atom (.literal text) :: ns) = renderFrom indent (run ++ text) ns := by
  simp [renderFrom, literal?]

/-- A node that is no literal ends the run of literals before it and is rendered by itself. -/
theorem renderFrom_cons (indent : Nat) (run : Text) {n : Node} (h : n.literal? = none)
    (ns : List Node) :
    renderFrom indent run (n :: ns) =
      line indent run ++ endLine (render indent n) ++ renderAll indent ns := by
  simp [renderFrom, renderAll, h]

end Node

end RegexGloss
