import RegexGloss.Options

/-!
# Kinds of groups

The forms that a parenthesis can take, and their headings in an explanation.
-/

namespace RegexGloss

/-- The side on which a lookaround looks. -/
inductive Direction where
  /-- After the current position. -/
  | ahead
  /-- Before the current position. -/
  | behind
  deriving DecidableEq, Repr

/-- What a group does. -/
inductive GroupKind where
  /-- A numbered capture, `(…)`. -/
  | capture
  /-- A group without a capture, `(?:…)`. -/
  | nonCapturing
  /-- A capture with a name, `(?<name>…)`. -/
  | named (name : Text)
  /-- A capture that takes back another one, `(?<first-second>…)`. -/
  | balancing (first second : Text)
  /-- Settings of options, `(?i-m)` or `(?i-m:…)`. -/
  | settings (list : List Setting)
  /-- A condition on the surrounding text, such as `(?=…)` and `(?<!…)`. -/
  | lookaround (direction : Direction) (negated : Bool)
  /-- A group that keeps its first match, `(?>…)`. -/
  | nonBacktracking
  /-- A choice between two branches, `(?(condition)yes|no)`. -/
  | conditional
  deriving DecidableEq, Repr

namespace GroupKind

/-- The heading of a lookaround. -/
def describeLookaround : Direction → Bool → Text
  | .ahead, false => "zero-width positive lookahead".toList
  | .ahead, true => "zero-width negative lookahead".toList
  | .behind, false => "zero-width positive lookbehind".toList
  | .behind, true => "zero-width negative lookbehind".toList

/-- The heading of a group in an explanation. -/
def describe : GroupKind → Text
  | capture => "Capture".toList
  | nonCapturing => "Non-capturing Group".toList
  | named name => "Capture to <".toList ++ name ++ ['>']
  | balancing first second =>
    "Balancing Group <".toList ++ first ++ ">-<".toList ++ second ++ ['>']
  | settings list =>
    "Set options to ".toList ++ List.intercalate ", ".toList (list.map Setting.describe)
  | lookaround direction negated => describeLookaround direction negated
  | nonBacktracking => "Non-backtracking subexpression".toList
  | conditional => "Conditional Subexpression".toList

end GroupKind

end RegexGloss
