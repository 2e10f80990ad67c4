import RegexGloss.Escape

/-!
# Tokens

A pattern is cut into tokens before its groups are matched up. Where a token ends depends only on
what follows it and on whether blanks are skipped, never on the groups around it. The tokens cover
the whole pattern (`Lexeme.sum_width_lex`).
-/

namespace RegexGloss

/-- A smallest unit of a pattern. -/
inductive Token where
  /-- A skipped blank. -/
  | blank
  /-- A skipped comment, up to the end of its line. -/
  | comment
  /-- A construct that holds no other constructs. -/
  | atom (atom : Atom)
  /-- A bar between alternatives. -/
  | bar
  /-- A plain opening parenthesis. -/
  | openPlain
  /-- An opening parenthesis with the opener of a group of this kind. -/
  | openGroup (kind : GroupKind)
  /-- The start of a conditional up to the parenthesis of its condition, `(?(`. -/
  | openCondition
  /-- A whole group that has no body. -/
  | bareGroup (kind : GroupKind)
  /-- A closing parenthesis. -/
  | close
  /-- A backslash and glyphs up to the end of the pattern that are too few for an escape. -/
  | truncatedEscape
  /-- An opening parenthesis before a `?` that starts no opener. -/
  | unknownGroup
  deriving DecidableEq, Repr

/-- A token with the number of glyphs it takes up. -/
structure Lexeme where
  /-- What was read. -/
  token : Token
  /-- How many glyphs it takes up. -/
  width : Nat
  deriving DecidableEq, Repr

namespace Token

/-! ## One token -/

/-- Whether a glyph is skipped where blanks are. -/
def isSkipped (c : Char) : Bool := c == ' ' || c == '\t' || c == '\r' || c == '\n'

/-- Whether a glyph ends a comment. -/
def endsComment (c : Char) : Bool := c == '\r' || c == '\n'

/-- Reads what an opening parenthesis starts. The number counts the glyphs after it. -/
def readOpening : Text → Token × Nat
  | '?' :: t =>
    match Opener.read? ('?' :: t) with
    | some ⟨.conditional, width, _⟩ => (openCondition, width + 1)
    | some ⟨kind, width, true⟩ => (openGroup kind, width)
    | some ⟨kind, width, false⟩ => (bareGroup kind, width)
    | none => (unknownGroup, 0)
  | _ => (openPlain, 0)

/-- Reads a quantifier of one glyph, which a `?` behind it makes lazy. -/
def readRepeat (description : Text) : Text → Token × Nat
  | '?' :: _ => (atom (.special (description ++ lazyMark)), 1)
  | _ => (atom (.special description), 0)

/-- Reads the token that starts with a glyph, given the glyphs after it. The number counts those of
them that belong to the token. -/
def readGlyph : Char → Text → Token × Nat
  | '(', t => readOpening t
  | ')', _ => (close, 0)
  | '[', t => (atom (.charClass (CharClass.read t).1), (CharClass.read t).2)
  | '\\', t =>
    match Escape.read? t with
    | some (escape, width) => (atom escape.atom, width)
    | none => (truncatedEscape, t.length)
  | '{', t => (atom (.quantifier (Quantifier.read t).1), (Quantifier.read t).2)
  | '|', _ => (bar, 0)
  | ' ', _ => (atom (.special spaceMark), 0)
  | '$', _ => (atom (.special "$ (anchor to end of string)".toList), 0)
  | '^', _ => (atom (.special "^ (anchor to start of string)".toList), 0)
  | '.', _ => (atom (.special ". (any character)".toList), 0)
  | '*', t => readRepeat "* (zero or more times)".toList t
  | '+', t => readRepeat "+ (one or more times)".toList t
  | '?', t => readRepeat "? (zero or one time)".toList t
  | c, _ => (atom (.literal [c]), 0)

/-- Reads a token as `readGlyph` does, except that blanks and comments are tokens of their own
where they are skipped. -/
def read (skipping : Bool) (c : Char) (t : Text) : Token × Nat :=
  if skipping && isSkipped c then (blank, 0)
  else if skipping && c == '#' then (comment, (t.takeWhile fun c => !endsComment c).length)
  else readGlyph c t

end Token

/-! ## All tokens -/

namespace Lexeme

/-- The tokens of a text, the first `skip` glyphs of which belong to a token read before. -/
def lexFrom (skipping : Bool) : Nat → Text → List Lexeme
  | _, [] => []
  | skip + 1, _ :: t => lexFrom skipping skip t
  | 0, c :: t =>
    let r := Token.read skipping c t
    ⟨r.1, r.2 + 1⟩ :: lexFrom skipping r.2 t

/-- The tokens of a pattern. With `skipping`, blanks and comments are told apart from literals. -/
def lex (skipping : Bool) (t : Text) : List Lexeme := lexFrom skipping 0 t

theorem lexFrom_eq_drop (skipping : Bool) (skip : Nat) (t : Text) :
    lexFrom skipping skip t = lex skipping (t.drop skip) := by
  induction t generalizing skip with
  | nil => cases skip <;> simp [lexFrom, lex]
  | cons c t ih =>
    cases skip with
    | zero => simp [lex]
    | succ skip => simp [lexFrom, ih]

@[simp]
theorem lex_nil (skipping : Bool) : lex skipping [] = [] := rfl

/-- The first token is read, and the others are those of the glyphs after it. -/
theorem lex_cons (skipping : Bool) (c : Char) (t : Text) :
    lex skipping (c :: t) =
      ⟨(Token.read skipping c t).1, (Token.read skipping c t).2 + 1⟩ ::
        lex skipping (t.drop (Token.read skipping c t).2) := by
  rw [lex, lexFrom, lexFrom_eq_drop]

end Lexeme

end RegexGloss
