import RegexGloss.Node.Render
import RegexGloss.Token.Width

/-!
# Descriptions of tokens

Every atom of a pattern has a description, and it starts with a glyph other than a space
(`Lexeme.described_of_mem_lex`). So no atom is left out of an explanation, and taking the
indentation away from its line leaves the description as it is. The headings of groups start with a
letter.
-/

namespace RegexGloss

/-! ## Visible texts -/

namespace Text

/-- Whether a text starts with a glyph other than a space. -/
def isVisible (t : Text) : Bool := t.head?.any (· != ' ')

theorem isVisible_append {t : Text} (h : t.isVisible = true) (u : Text) :
    isVisible (t ++ u) = true := by
  cases t with
  | nil => cases h
  | cons c t => exact h

/-- A visible text has no spaces in front of it. -/
theorem dropSpaces_of_isVisible {t : Text} (h : t.isVisible = true) : dropSpaces t = t := by
  cases t with
  | nil => cases h
  | cons c t =>
    have hc : c ≠ ' ' := by simpa [isVisible] using h
    simp [dropSpaces, hc]

theorem ne_nil_of_isVisible {t : Text} (h : t.isVisible = true) : t ≠ [] := by
  rintro rfl
  cases h

theorem isVisible_singleton {c : Char} (h : c ≠ ' ') : isVisible [c] = true := by
  simp [isVisible, h]

end Text

open Text

/-! ## Headings and descriptions -/

theorem CharClass.isVisible_describe (c : CharClass) : c.describe.isVisible = true := by
  rcases c with ⟨members, _ | _⟩ | _ <;> rfl

theorem Bound.isVisible_describe (b : Bound) : b.describe.isVisible = true := by
  cases b <;> rfl

theorem Quantifier.isVisible_describe (q : Quantifier) : q.describe.isVisible = true := by
  rcases q with ⟨bound, _ | _⟩ | _
  · exact bound.isVisible_describe
  · exact isVisible_append bound.isVisible_describe lazyMark
  · rfl

/-- The heading of a group starts with a letter. -/
theorem GroupKind.isVisible_describe (k : GroupKind) : k.describe.isVisible = true := by
  cases k with
  | lookaround direction negated => cases direction <;> cases negated <;> rfl
  | _ => rfl

theorem Escape.isVisible_of_shorthand?_eq_some {c : Char} {description : Text}
    (h : shorthand? c = some description) : description.isVisible = true := by
  unfold shorthand? at h
  split at h <;> cases h <;> rfl

/-! ## Tokens -/

theorem Escape.isVisible_of_readGlyph?_eq_some {c : Char} {t : Text} {escape : Escape}
    {width : Nat} (h : readGlyph? c t = some (escape, width)) :
    escape.atom.describe.isVisible = true := by
  unfold readGlyph? at h
  split at h
  · cases h
  · cases h
    rfl
  · obtain ⟨digits, -, he⟩ := Option.map_eq_some_iff.1 h
    cases he
    rfl
  · obtain ⟨digits, -, he⟩ := Option.map_eq_some_iff.1 h
    cases he
    rfl
  · cases h
    rfl
  -- a glyph without a meaning of its own stands for itself, and the space has one
  · have hspace : c ≠ ' ' := ‹c = ' ' → False›
    cases h
    cases hs : shorthand? c with
    | some description => exact isVisible_of_shorthand?_eq_some hs
    | none => exact isVisible_singleton hspace

theorem Escape.isVisible_of_read?_eq_some {t : Text} {escape : Escape} {width : Nat}
    (h : read? t = some (escape, width)) : escape.atom.describe.isVisible = true := by
  unfold read? at h
  split at h
  · cases h
    rfl
  · split at h
    · cases h
    · exact isVisible_of_readGlyph?_eq_some h

/-- Atoms are described by visible texts. -/
def Token.Described (token : Token) : Prop := ∀ a, token = .atom a → a.describe.isVisible = true

namespace Token

theorem described_atom {a : Atom} (h : a.describe.isVisible = true) : (atom a).Described := by
  intro b hb
  cases hb
  exact h

theorem described_readOpening (t : Text) : (readOpening t).1.Described := by
  unfold readOpening
  repeat' split
  all_goals exact nofun

theorem described_readRepeat {description : Text} (h : description.isVisible = true) (t : Text) :
    (readRepeat description t).1.Described := by
  unfold readRepeat
  split
  · exact described_atom (isVisible_append h lazyMark)
  · exact described_atom h

theorem described_readGlyph (c : Char) (t : Text) : (readGlyph c t).1.Described := by
  unfold readGlyph
  split
  · exact described_readOpening t
  · exact nofun
  · exact described_atom (CharClass.isVisible_describe _)
  · split
    · rename_i h
      exact described_atom (Escape.isVisible_of_read?_eq_some h)
    · exact nofun
  · exact described_atom (Quantifier.isVisible_describe _)
  · exact nofun
  -- a space and the anchors
  iterate 4 exact described_atom rfl
  -- the quantifiers of one glyph
  iterate 3 exact described_readRepeat rfl t
  · rename_i hspace _ _ _ _ _ _
    exact described_atom (isVisible_singleton hspace)

/-- Every atom that is read has a visible description. -/
theorem described_read (skipping : Bool) (c : Char) (t : Text) :
    (read skipping c t).1.Described := by
  unfold read
  split
  · exact nofun
  · split
    · exact nofun
    · exact described_readGlyph c t

end Token

/-- Every atom of a text has a visible description. -/
theorem Lexeme.described_of_mem_lex {skipping : Bool} {t : Text} {l : Lexeme}
    (h : l ∈ lex skipping t) : l.token.Described := by
  obtain ⟨c, u, rfl⟩ := exists_read_of_mem_lex h
  exact Token.described_read skipping c u

end RegexGloss
