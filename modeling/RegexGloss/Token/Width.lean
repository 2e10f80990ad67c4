import Mathlib.Algebra.GroupWithZero.Nat
import RegexGloss.Opener.Lemmas
import RegexGloss.Token

/-!
# Tokens tile the pattern

No token takes up more glyphs than there are, so the widths of the tokens of a pattern add up to
its length (`Lexeme.sum_width_lex`).
-/

namespace RegexGloss

theorem Escape.length_le_of_take?_eq_some {count : Nat} {t taken : Text}
    (h : take? count t = some taken) : count ≤ t.length := by
  unfold take? at h
  split at h
  · rename_i hl
    rw [List.length_take] at hl
    omega
  · cases h

theorem Escape.snd_le_of_read?_eq_some {t : Text} {escape : Escape} {width : Nat}
    (h : read? t = some (escape, width)) : width ≤ t.length := by
  unfold read? at h
  split at h
  · rename_i name w hb
    cases h
    unfold backreference? at hb
    split at hb
    · obtain ⟨⟨word, rest⟩, hr, he⟩ := Option.map_eq_some_iff.1 hb
      obtain ⟨-, rfl⟩ := Opener.wordUpTo?_eq_some hr
      cases he
      simp
    · cases hb
  · split at h
    · cases h
    · rename_i c u
      unfold readGlyph? at h
      split at h
      · cases h
      · cases h
        simp
      · obtain ⟨digits, hd, he⟩ := Option.map_eq_some_iff.1 h
        have hl := length_le_of_take?_eq_some hd
        cases he
        simp only [List.length_cons]
        omega
      · obtain ⟨digits, hd, he⟩ := Option.map_eq_some_iff.1 h
        have hl := length_le_of_take?_eq_some hd
        cases he
        simp only [List.length_cons]
        omega
      · cases h
        simp
      · cases h
        simp

namespace Token

theorem readOpening_snd_le (t : Text) : (readOpening t).2 ≤ t.length := by
  unfold readOpening
  split
  · split
    · rename_i h
      exact (Opener.width_of_conditional h rfl).2
    · rename_i h
      exact Opener.width_le_of_read?_eq_some h
    · rename_i h
      exact Opener.width_le_of_read?_eq_some h
    · exact Nat.zero_le _
  · exact Nat.zero_le _

theorem readRepeat_snd_le (description t : Text) : (readRepeat description t).2 ≤ t.length := by
  unfold readRepeat
  split <;> simp

theorem readGlyph_snd_le (c : Char) (t : Text) : (readGlyph c t).2 ≤ t.length := by
  unfold readGlyph
  split
  · exact readOpening_snd_le _
  · exact Nat.zero_le _
  · exact CharClass.read_snd_le _
  · split
    · rename_i h
      exact Escape.snd_le_of_read?_eq_some h
    · exact Nat.le_refl _
  · exact Quantifier.read_snd_le _
  · exact Nat.zero_le _
  · exact Nat.zero_le _
  · exact Nat.zero_le _
  · exact Nat.zero_le _
  · exact Nat.zero_le _
  · exact readRepeat_snd_le _ _
  · exact readRepeat_snd_le _ _
  · exact readRepeat_snd_le _ _
  · exact Nat.zero_le _

/-- A token takes up no more glyphs than there are. -/
theorem read_snd_le (skipping : Bool) (c : Char) (t : Text) :
    (read skipping c t).2 ≤ t.length := by
  unfold read
  split
  · exact Nat.zero_le _
  · split
    · exact (List.takeWhile_sublist _).length_le
    · exact readGlyph_snd_le c t

end Token

namespace Lexeme

/-- The tokens of a pattern cover it: their widths add up to its length. -/
theorem sum_width_lex (skipping : Bool) (t : Text) :
    ((lex skipping t).map width).sum = t.length := by
  match t with
  | [] => rfl
  | c :: t =>
    have hle := Token.read_snd_le skipping c t
    have ih := sum_width_lex skipping (t.drop (Token.read skipping c t).2)
    simp only [lex_cons, List.map_cons, List.sum_cons, ih, List.length_drop, List.length_cons]
    omega
termination_by t.length
decreasing_by simp only [List.length_drop, List.length_cons]; omega

/-- Every token of a text is read from some glyph of it on. -/
theorem exists_read_of_mem_lex {skipping : Bool} {t : Text} {l : Lexeme}
    (h : l ∈ lex skipping t) :
    ∃ c u, l = ⟨(Token.read skipping c u).1, (Token.read skipping c u).2 + 1⟩ := by
  match t with
  | [] => cases h
  | c :: t =>
    rw [lex_cons] at h
    rcases List.mem_cons.1 h with h | h
    · exact ⟨c, t, h⟩
    · exact exists_read_of_mem_lex h
termination_by t.length
decreasing_by simp only [List.length_drop, List.length_cons]; omega

end Lexeme

end RegexGloss
