import RegexGloss.Text.Basic

/-!
# Braced quantifiers

A braced quantifier bounds a repetition: `{n}`, `{n,}` or `{n,m}`, with a `?` behind it if the
shortest match is wanted. Counts are kept as the digits written, so that numbers of any length are
described exactly. An opening brace that starts none of these forms is described as such and is no
fault.
-/

namespace RegexGloss

/-- How often something is repeated. -/
inductive Bound where
  /-- Exactly so many times. -/
  | exactly (count : Text)
  /-- So many times or more often. -/
  | atLeast (least : Text)
  /-- Between two numbers of times. -/
  | between (least most : Text)
  deriving DecidableEq, Repr

/-- A braced quantifier. -/
inductive Quantifier where
  /-- A well-formed quantifier; a lazy one asks for the shortest match. -/
  | bounded (bound : Bound) (lazy : Bool)
  /-- An opening brace that starts no well-formed quantifier. -/
  | unterminated
  deriving DecidableEq, Repr

/-- How an explanation marks what asks for the shortest match. -/
def lazyMark : Text := " (non-greedy)".toList

/-- How an explanation describes the bounds of a repetition. -/
def Bound.describe : Bound → Text
  | exactly count => "Exactly ".toList ++ count ++ " times".toList
  | atLeast least => "At least ".toList ++ least ++ " times".toList
  | between least most =>
    "At least ".toList ++ least ++ ", but not more than ".toList ++ most ++ " times".toList

namespace Quantifier

/-- How an explanation describes a braced quantifier. -/
def describe : Quantifier → Text
  | bounded bound false => bound.describe
  | bounded bound true => bound.describe ++ lazyMark
  | unterminated => "missing '\x7d' in quantifier".toList

/-- The part of a quantifier before its closing brace. -/
structure Counts where
  /-- The digits before the comma. -/
  least : Text
  /-- Whether there is a comma. -/
  comma : Bool
  /-- The digits after the comma. -/
  most : Text
  deriving DecidableEq, Repr

namespace Counts

/-- The number of glyphs that the counts take up. -/
def width (k : Counts) : Nat := k.least.length + k.comma.toNat + k.most.length

/-- The bounds that the counts write. -/
def bound (k : Counts) : Bound :=
  if k.comma then
    if k.most.isEmpty then .atLeast k.least else .between k.least k.most
  else
    .exactly k.least

/-- Reads digits, a comma if there is one, and digits. Any of these parts may be missing. -/
def read (t : Text) : Counts :=
  let least := t.takeWhile Char.isDigit
  match t.dropWhile Char.isDigit with
  | ',' :: t => ⟨least, true, t.takeWhile Char.isDigit⟩
  | _ => ⟨least, false, []⟩

end Counts

/-- The number of glyphs up to and including the first `}`, if it comes before any `)`, and zero
otherwise. -/
def strayWidth (t : Text) : Nat :=
  let inside := t.takeWhile (· != ')')
  let before := inside.takeWhile (· != '}')
  if before.length < inside.length then before.length + 1 else 0

/-- Reads the quantifier that follows a `{`, with the number of glyphs it takes up after that. A
malformed one takes up its counts and then all glyphs up to a `}`, unless a `)` comes first. -/
def read (t : Text) : Quantifier × Nat :=
  let counts := Counts.read t
  let rest := t.drop counts.width
  if counts.least ≠ [] ∧ rest.head? = some '}' then
    let lazy := rest.tail.head? == some '?'
    (bounded counts.bound lazy, counts.width + 1 + lazy.toNat)
  else
    (unterminated, counts.width + strayWidth rest)

theorem Counts.width_read_le (t : Text) : (Counts.read t).width ≤ t.length := by
  have ht := congrArg List.length (List.takeWhile_append_dropWhile (p := Char.isDigit) (l := t))
  rw [List.length_append] at ht
  unfold Counts.read
  split
  · rename_i u hu
    have := (List.takeWhile_sublist (l := u) Char.isDigit).length_le
    simp only [hu, Counts.width, List.length_cons, Bool.toNat_true] at ht ⊢
    omega
  · simp only [Counts.width, List.length_nil, Bool.toNat_false]
    omega

theorem strayWidth_le (t : Text) : strayWidth t ≤ t.length := by
  have := (List.takeWhile_sublist (l := t) (· != ')')).length_le
  dsimp only [strayWidth]
  split <;> omega

/-- A quantifier takes up no more glyphs than there are. -/
theorem read_snd_le (t : Text) : (read t).2 ≤ t.length := by
  have hw := Counts.width_read_le t
  have hs := strayWidth_le (t.drop (Counts.read t).width)
  simp only [List.length_drop] at hs
  dsimp only [read]
  split
  · rename_i h
    generalize hr : t.drop (Counts.read t).width = rest at h ⊢
    have hl := congrArg List.length hr
    cases rest with
    | nil => simp at h
    | cons c rest =>
      cases rest with
      | nil => simp at hl ⊢; omega
      | cons d rest =>
        have := Bool.toNat_le (some d == some '?')
        simp only [List.length_drop, List.length_cons, List.tail_cons, List.head?_cons] at hl ⊢
        omega
  · dsimp only
    omega

end Quantifier

end RegexGloss
