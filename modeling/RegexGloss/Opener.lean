import RegexGloss.GroupKind
import RegexGloss.Text.Word

/-!
# Openers of groups

A `?` behind an opening parenthesis gives the group a kind. Each form of opener has a reader that
looks at the pattern from the `?` on. No two of the forms share a start, so the order in which
`Opener.read?` tries them does not matter.
-/

namespace RegexGloss

/-- What stands between an opening parenthesis and the body of its group. -/
structure Opener where
  /-- The kind of the group. -/
  kind : GroupKind
  /-- The number of glyphs, from the `?` on. -/
  width : Nat
  /-- Whether a body and a closing parenthesis follow. Otherwise the opener ends with the closing
  parenthesis. -/
  hasBody : Bool
  deriving DecidableEq, Repr

namespace Opener

/-! ## Names -/

/-- Reads the opening quote of a name, `?<` or `?'`: the glyph that has to close it, and what
follows. -/
def quoted? : Text → Option (Char × Text)
  | '?' :: '<' :: t => some ('>', t)
  | '?' :: '\x27' :: t => some ('\x27', t)
  | _ => none

/-- Reads a word that is not empty and the glyph that has to come behind it, with what follows. -/
def wordUpTo? (close : Char) (t : Text) : Option (Text × Text) :=
  if Text.word t ≠ [] ∧ (Text.afterWord t).head? = some close then
    some (Text.word t, (Text.afterWord t).tail)
  else
    none

/-- Reads `?<name>` or `?'name'`. -/
def named? (t : Text) : Option Opener := do
  let (close, t) ← quoted? t
  let (name, _) ← wordUpTo? close t
  return ⟨.named name, name.length + 3, true⟩

/-- Reads `?<first-second>` or `?'first-second'`. -/
def balancing? (t : Text) : Option Opener := do
  let (close, t) ← quoted? t
  let (first, t) ← wordUpTo? '-' t
  let (second, _) ← wordUpTo? close t
  return ⟨.balancing first second, first.length + second.length + 4, true⟩

/-! ## Settings -/

/-- Whether a glyph may stand among settings: an option letter or a hyphen. -/
def isSettingGlyph (c : Char) : Bool := c == '-' || (Flag.ofLetter? c).isSome

/-- The settings that letters and hyphens write: a letter is switched off if a hyphen comes
before it. -/
def settings (enabled : Bool) : Text → List Setting
  | [] => []
  | c :: t =>
    match Flag.ofLetter? c with
    | some flag => ⟨flag, enabled⟩ :: settings enabled t
    | none => settings false t

/-- The end of an opener that sets options: its width and whether a body follows. -/
def settingsEnd? : Text → Option (Nat × Bool)
  | ')' :: _ => some (1, false)
  | ':' :: ')' :: _ => some (2, false)
  | ':' :: _ => some (1, true)
  | _ => none

/-- Reads `?` and settings of at least one option, closed by `)` or `:)`, or introducing a body
with `:`. -/
def settings? : Text → Option Opener
  | '?' :: t => do
    let glyphs := t.takeWhile isSettingGlyph
    let list := settings true glyphs
    guard (list ≠ [])
    let (width, hasBody) ← settingsEnd? (t.dropWhile isSettingGlyph)
    return ⟨.settings list, 1 + glyphs.length + width, hasBody⟩
  | _ => none

/-! ## Openers without further parts -/

/-- Reads `?:`. -/
def nonCapturing? : Text → Option Opener
  | '?' :: ':' :: _ => some ⟨.nonCapturing, 2, true⟩
  | _ => none

/-- Reads `?=`, `?!`, `?<=` or `?<!`. -/
def lookaround? : Text → Option Opener
  | '?' :: '=' :: _ => some ⟨.lookaround .ahead false, 2, true⟩
  | '?' :: '!' :: _ => some ⟨.lookaround .ahead true, 2, true⟩
  | '?' :: '<' :: '=' :: _ => some ⟨.lookaround .behind false, 3, true⟩
  | '?' :: '<' :: '!' :: _ => some ⟨.lookaround .behind true, 3, true⟩
  | _ => none

/-- Reads `?>`. -/
def nonBacktracking? : Text → Option Opener
  | '?' :: '>' :: _ => some ⟨.nonBacktracking, 2, true⟩
  | _ => none

/-- Reads the `?` of `?(`. The parenthesis belongs to the condition. -/
def conditional? : Text → Option Opener
  | '?' :: '(' :: _ => some ⟨.conditional, 1, true⟩
  | _ => none

/-! ## Any opener -/

/-- Reads an opener of any form. -/
def read? (t : Text) : Option Opener :=
  named? t <|> balancing? t <|> nonCapturing? t <|> settings? t <|> lookaround? t <|>
    nonBacktracking? t <|> conditional? t

end Opener

end RegexGloss
