import RegexGloss.Proofs.Token.Locality

/-!
# Glyphs of tokens

Bars, parentheses and faults are told by the glyph that they start with (`Token.firstGlyph?`), and
some of them by the glyphs behind it, too. Together with the tokens before it, a token of a pattern
tells which glyph stands at its place (`Lexeme.exists_read_of_lex_eq`).
-/

namespace RegexGloss

theorem CharClass.readMembers_snd_of_unterminated {negated : Bool} {t : Text}
    (h : (readMembers negated t).1 = .unterminated) : (readMembers negated t).2 = t.length := by
  dsimp only [readMembers] at h ⊢
  split at h
  · cases h
  · rw [if_neg ‹_›]

/-- A class without a bracket runs to the end of the text. -/
theorem CharClass.read_snd_of_unterminated {t : Text} (h : (read t).1 = .unterminated) :
    (read t).2 = t.length := by
  unfold read at h ⊢
  split at h
  · exact congrArg (· + 1) (readMembers_snd_of_unterminated h)
  · exact readMembers_snd_of_unterminated h

namespace Opener

/-- Only the opener of a conditional starts a condition. -/
theorem kind_of_token_eq {o : Opener} (h : o.token = .openCondition) : o.kind = .conditional := by
  obtain ⟨kind, width, hasBody⟩ := o
  cases kind with
  | conditional => rfl
  | _ => cases hasBody <;> cases h

/-- Only an opener before a body opens a group of its kind. -/
theorem eq_of_token_eq_openGroup {o : Opener} {kind : GroupKind}
    (h : o.token = .openGroup kind) : o.kind = kind ∧ o.hasBody = true := by
  obtain ⟨kind', width, hasBody⟩ := o
  cases kind' <;> cases hasBody <;> cases h <;> exact ⟨rfl, rfl⟩

theorem token_ne_unknownGroup (o : Opener) : o.token ≠ .unknownGroup := by
  intro h
  obtain ⟨kind, width, hasBody⟩ := o
  cases kind <;> cases hasBody <;> cases h

end Opener

namespace Token

/-- The glyph that a token is always written with first. Blanks, comments and atoms have none. -/
def firstGlyph? : Token → Option Char
  | bar => some '|'
  | openPlain | openGroup _ | openCondition | bareGroup _ | unknownGroup => some '('
  | close => some ')'
  | truncatedEscape => some '\\'
  | blank | comment | atom _ => none

theorem firstGlyph?_readOpening (t : Text) : (readOpening t).1.firstGlyph? = some '(' := by
  unfold readOpening
  split
  · split <;> rfl
  · rfl

theorem firstGlyph?_readRepeat (description t : Text) :
    (readRepeat description t).1.firstGlyph? = none := by
  unfold readRepeat
  split <;> rfl

/-- A token that has to start with a glyph is read from that glyph on. -/
theorem eq_of_firstGlyph?_read {skipping : Bool} {c g : Char} {t : Text}
    (h : (read skipping c t).1.firstGlyph? = some g) : c = g := by
  unfold read at h
  split at h
  · cases h
  split at h
  · cases h
  unfold readGlyph at h
  split at h
  · rw [firstGlyph?_readOpening] at h
    exact Option.some.inj h
  · exact Option.some.inj h
  · cases h
  · split at h
    · cases h
    · exact Option.some.inj h
  · cases h
  · exact Option.some.inj h
  -- a space and the anchors are atoms
  iterate 4 cases h
  iterate 3
    rw [firstGlyph?_readRepeat] at h
    cases h
  · cases h

/-- An opening parenthesis is never skipped. -/
theorem read_parenthesis (skipping : Bool) (t : Text) : read skipping '(' t = readOpening t := by
  cases skipping <;> rfl

/-- A parenthesis of no known kind stands before a `?` that starts no opener. -/
theorem unknownGroup_of_read {skipping : Bool} {c : Char} {t : Text}
    (h : (read skipping c t).1 = .unknownGroup) :
    c = '(' ∧ t.head? = some '?' ∧ Opener.read? t = none := by
  obtain rfl : c = '(' := eq_of_firstGlyph?_read (by rw [h]; rfl)
  rw [read_parenthesis] at h
  by_cases hq : t.head? = some '?'
  · obtain ⟨u, rfl⟩ := List.head?_eq_some_iff.1 hq
    rw [readOpening_question] at h
    cases ho : Opener.read? ('?' :: u) with
    | none => exact ⟨rfl, rfl, rfl⟩
    | some o =>
      rw [ho] at h
      exact absurd h o.token_ne_unknownGroup
  · rw [readOpening_of_head?_ne hq] at h
    cases h

/-- The parenthesis of a condition is the third glyph of its conditional. -/
theorem openCondition_of_read {skipping : Bool} {c : Char} {t : Text}
    (h : (read skipping c t).1 = .openCondition) : c = '(' ∧ ∃ u, t = '?' :: '(' :: u := by
  obtain rfl : c = '(' := eq_of_firstGlyph?_read (by rw [h]; rfl)
  rw [read_parenthesis] at h
  refine ⟨rfl, ?_⟩
  by_cases hq : t.head? = some '?'
  · obtain ⟨u, rfl⟩ := List.head?_eq_some_iff.1 hq
    rw [readOpening_question] at h
    cases ho : Opener.read? ('?' :: u) with
    | none =>
      rw [ho] at h
      cases h
    | some o =>
      rw [ho] at h
      have hconditional := Opener.conditional?_eq_some_of_kind ho (Opener.kind_of_token_eq h)
      unfold Opener.conditional? at hconditional
      split at hconditional
      · exact ⟨_, ‹_›⟩
      · cases hconditional
  · rw [readOpening_of_head?_ne hq] at h
    cases h

/-- An escape that is too short takes up all that is left. -/
theorem truncatedEscape_of_read {skipping : Bool} {c : Char} {t : Text}
    (h : (read skipping c t).1 = .truncatedEscape) : (read skipping c t).2 = t.length := by
  obtain rfl : c = '\\' := eq_of_firstGlyph?_read (by rw [h]; rfl)
  have hread : read skipping '\\' t = readGlyph '\\' t := by cases skipping <;> rfl
  rw [hread, readGlyph] at h ⊢
  cases he : Escape.read? t with
  | none => rfl
  | some r =>
    rw [he] at h
    cases h

/-- A class is read behind a bracket. -/
theorem eq_of_readGlyph_charClass {c : Char} {t : Text} {cls : CharClass}
    (h : (readGlyph c t).1 = .atom (.charClass cls)) : c = '[' ∧ (CharClass.read t).1 = cls := by
  unfold readGlyph at h
  split at h
  · have hglyph := firstGlyph?_readOpening t
    rw [h] at hglyph
    cases hglyph
  · cases h
  · cases h
    exact ⟨rfl, rfl⟩
  · split at h
    · rename_i escape _ _
      cases escape <;> cases h
    · cases h
  -- a quantifier in braces, a bar, a space and the anchors
  iterate 6 cases h
  iterate 3
    unfold readRepeat at h
    split at h <;> cases h
  · cases h

/-- A class without a bracket takes up all that is left. -/
theorem unterminated_of_read {skipping : Bool} {c : Char} {t : Text}
    (h : (read skipping c t).1 = .atom (.charClass .unterminated)) :
    (read skipping c t).2 = t.length := by
  by_cases hblank : (skipping && isSkipped c) = true
  · rw [read, if_pos hblank] at h
    cases h
  by_cases hcomment : (skipping && c == '#') = true
  · rw [read, if_neg hblank, if_pos hcomment] at h
    cases h
  rw [read, if_neg hblank, if_neg hcomment] at h ⊢
  obtain ⟨rfl, hclass⟩ := eq_of_readGlyph_charClass h
  exact CharClass.read_snd_of_unterminated hclass

end Token

namespace Lexeme

variable {skipping : Bool} {t : Text} {before after : List Lexeme} {l : Lexeme}

/-- A token is read from the glyphs behind the tokens before it. -/
theorem exists_read_of_lex_eq (h : lex skipping t = before ++ l :: after) :
    ∃ c u, t.drop (before.map width).sum = c :: u ∧ (Token.read skipping c u).1 = l.token ∧
      (Token.read skipping c u).2 + 1 = l.width := by
  have hdrop := lex_drop h
  cases hu : t.drop (before.map width).sum with
  | nil =>
    rw [hu] at hdrop
    cases hdrop
  | cons c u =>
    rw [hu, lex_cons] at hdrop
    obtain ⟨rfl, -⟩ := List.cons.inj hdrop
    exact ⟨c, u, rfl, rfl, rfl⟩

/-- A token that has to start with a glyph has it at its place. -/
theorem getElem?_of_firstGlyph? (h : lex skipping t = before ++ l :: after) {g : Char}
    (hg : l.token.firstGlyph? = some g) : t[(before.map width).sum]? = some g := by
  obtain ⟨c, u, hu, hread, -⟩ := exists_read_of_lex_eq h
  rw [← hread] at hg
  obtain rfl := Token.eq_of_firstGlyph?_read hg
  rw [← List.head?_drop, hu]
  rfl

/-- No token stands behind a class without a bracket. -/
theorem eq_nil_of_unterminated {width : Nat}
    (h : lex skipping t = before ++ ⟨.atom (.charClass .unterminated), width⟩ :: after) :
    after = [] := by
  obtain ⟨c, u, hu, hread, hwidth⟩ := exists_read_of_lex_eq h
  rw [Token.unterminated_of_read hread] at hwidth
  have hlength := congrArg List.length hu
  rw [List.length_drop, List.length_cons] at hlength
  have hdrop := lex_drop (h.trans (List.append_cons ..))
  rw [List.drop_eq_nil_of_le] at hdrop
  · exact hdrop.symm
  · simp only [List.map_append, List.map_cons, List.map_nil, List.sum_append, List.sum_cons,
      List.sum_nil]
    dsimp only at hwidth
    omega

/-- The glyph that a token has to start with is one of the text. -/
theorem mem_of_firstGlyph? (h : l ∈ lex skipping t) {g : Char}
    (hg : l.token.firstGlyph? = some g) : g ∈ t := by
  obtain ⟨before, after, hsplit⟩ := List.append_of_mem h
  exact List.mem_of_getElem? (getElem?_of_firstGlyph? hsplit hg)

end Lexeme

end RegexGloss
