import RegexGloss.Proofs.Token.Description

/-!
# The shape of tokens

Some tokens are always written with the same number of glyphs: a bar and a closing parenthesis with
one, the start of a conditional with three. The texts of literals never start with a space. The
tokens of every text are shaped like this (`Lexeme.shaped_of_mem_lex`). Blanks and comments are
among them only where these are skipped (`Lexeme.not_skipped_of_mem_lex`).
-/

namespace RegexGloss

/-- A token takes up at least one glyph, and as many as there are to it if it is always written in
the same way. A literal is not described by a text with a space in front. -/
def Lexeme.Shaped (l : Lexeme) : Prop :=
  0 < l.width ∧
    match l.token with
    | .bar | .close => l.width = 1
    | .openCondition => l.width = 3
    | .atom (.literal text) => Text.dropSpaces text = text
    | _ => True

namespace Token

theorem shaped_of_readOpening {t : Text} {token : Token} {width : Nat}
    (h : readOpening t = (token, width)) : Lexeme.Shaped ⟨token, width + 1⟩ := by
  refine ⟨Nat.succ_pos _, ?_⟩
  unfold readOpening at h
  split at h
  · split at h
    -- only the start of a conditional has to have a certain width
    · rename_i ho
      have hw := (Opener.width_of_conditional ho rfl).1
      cases h
      simpa using hw
    · cases h
      trivial
    · cases h
      trivial
    · cases h
      trivial
  · cases h
    trivial

theorem shaped_of_readRepeat {description t : Text} {token : Token} {width : Nat}
    (h : readRepeat description t = (token, width)) : Lexeme.Shaped ⟨token, width + 1⟩ := by
  unfold readRepeat at h
  split at h <;> cases h <;> exact ⟨Nat.succ_pos _, trivial⟩

theorem shaped_of_readGlyph {c : Char} {t : Text} {token : Token} {width : Nat}
    (h : readGlyph c t = (token, width)) : Lexeme.Shaped ⟨token, width + 1⟩ := by
  unfold readGlyph at h
  split at h
  · exact shaped_of_readOpening h
  · cases h
    exact ⟨Nat.succ_pos _, rfl⟩
  · cases h
    exact ⟨Nat.succ_pos _, trivial⟩
  · split at h
    · rename_i escape _ he
      cases h
      refine ⟨Nat.succ_pos _, ?_⟩
      cases ha : escape.atom with
      | literal text =>
        have hvisible := Escape.isVisible_of_read?_eq_some he
        rw [ha] at hvisible
        exact Text.dropSpaces_of_isVisible hvisible
      | _ => trivial
    · cases h
      exact ⟨Nat.succ_pos _, trivial⟩
  · cases h
    exact ⟨Nat.succ_pos _, trivial⟩
  · cases h
    exact ⟨Nat.succ_pos _, rfl⟩
  -- a space and the anchors
  iterate 4
    cases h
    exact ⟨Nat.succ_pos _, trivial⟩
  -- the quantifiers of one glyph
  iterate 3 exact shaped_of_readRepeat h
  · rename_i hspace _ _ _ _ _ _
    cases h
    exact ⟨Nat.succ_pos _, Text.dropSpaces_of_isVisible (Text.isVisible_singleton hspace)⟩

/-- Every token that is read is shaped. -/
theorem shaped_read (skipping : Bool) (c : Char) (t : Text) :
    Lexeme.Shaped ⟨(read skipping c t).1, (read skipping c t).2 + 1⟩ := by
  unfold read
  split
  · exact ⟨Nat.succ_pos _, trivial⟩
  · split
    · exact ⟨Nat.succ_pos _, trivial⟩
    · exact shaped_of_readGlyph rfl

end Token

/-- Every token of a text is shaped. -/
theorem Lexeme.shaped_of_mem_lex {skipping : Bool} {t : Text} {l : Lexeme}
    (h : l ∈ lex skipping t) : l.Shaped := by
  obtain ⟨c, u, rfl⟩ := exists_read_of_mem_lex h
  exact Token.shaped_read skipping c u

/-! ## Skipping -/

namespace Token

/-- No token that is read where nothing is skipped is a blank or a comment. -/
theorem readGlyph_fst_ne (c : Char) (t : Text) :
    (readGlyph c t).1 ≠ .blank ∧ (readGlyph c t).1 ≠ .comment := by
  unfold readGlyph readOpening readRepeat
  repeat' split
  all_goals exact ⟨nofun, nofun⟩

/-- A comment takes up all glyphs before the one that ends it. -/
theorem comment_of_read {skipping : Bool} {c : Char} {t : Text}
    (h : (read skipping c t).1 = .comment) :
    (read skipping c t).2 = (t.takeWhile fun c => !endsComment c).length := by
  by_cases hblank : (skipping && isSkipped c) = true
  · rw [read, if_pos hblank] at h
    cases h
  by_cases hcomment : (skipping && c == '#') = true
  · rw [read, if_neg hblank, if_pos hcomment]
  · rw [read, if_neg hblank, if_neg hcomment] at h
    exact absurd h (readGlyph_fst_ne c t).2

end Token

/-- Unless blanks are skipped, no token is a blank or a comment. -/
theorem Lexeme.not_skipped_of_mem_lex {t : Text} {l : Lexeme} (h : l ∈ lex false t) :
    l.token ≠ .blank ∧ l.token ≠ .comment := by
  obtain ⟨c, u, rfl⟩ := exists_read_of_mem_lex h
  exact Token.readGlyph_fst_ne c u

end RegexGloss
