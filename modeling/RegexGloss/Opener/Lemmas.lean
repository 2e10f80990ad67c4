import Mathlib.Data.Option.Basic
import RegexGloss.Opener

/-!
# The glyphs of an opener

An opener never takes up more glyphs than the pattern has. Each form of opener has its own lemma,
and `Opener.width_le_of_read?_eq_some` joins them.
-/

namespace RegexGloss

namespace Opener

/-- What is read is a word and the glyph behind it. -/
theorem wordUpTo?_eq_some {close : Char} {t name rest : Text}
    (h : wordUpTo? close t = some (name, rest)) : name ≠ [] ∧ t = name ++ close :: rest := by
  unfold wordUpTo? at h
  split at h
  · rename_i hw
    cases h
    refine ⟨hw.1, ?_⟩
    obtain ⟨rest, hr⟩ := List.head?_eq_some_iff.1 hw.2
    rw [hr, List.tail_cons, ← hr, Text.word_append_afterWord]
  · cases h

theorem quoted?_eq_some {t rest : Text} {close : Char} (h : quoted? t = some (close, rest)) :
    ∃ quote, t = '?' :: quote :: rest := by
  unfold quoted? at h
  split at h <;> cases h <;> exact ⟨_, rfl⟩

theorem width_named?_le {t : Text} {o : Opener} (h : named? t = some o) : o.width ≤ t.length := by
  simp only [named?, Option.bind_eq_bind, Option.bind_eq_some_iff, Prod.exists] at h
  obtain ⟨close, u, hq, name, rest, hw, ho⟩ := h
  obtain ⟨quote, rfl⟩ := quoted?_eq_some hq
  obtain ⟨-, rfl⟩ := wordUpTo?_eq_some hw
  cases ho
  simp

theorem width_balancing?_le {t : Text} {o : Opener} (h : balancing? t = some o) :
    o.width ≤ t.length := by
  simp only [balancing?, Option.bind_eq_bind, Option.bind_eq_some_iff, Prod.exists] at h
  obtain ⟨close, u, hq, first, v, hf, second, rest, hs, ho⟩ := h
  obtain ⟨quote, rfl⟩ := quoted?_eq_some hq
  obtain ⟨-, rfl⟩ := wordUpTo?_eq_some hf
  obtain ⟨-, rfl⟩ := wordUpTo?_eq_some hs
  cases ho
  simp; omega

theorem width_settingsEnd?_le {t : Text} {width : Nat} {hasBody : Bool}
    (h : settingsEnd? t = some (width, hasBody)) : width ≤ t.length := by
  unfold settingsEnd? at h
  split at h <;> cases h <;> simp

theorem width_settings?_le {t : Text} {o : Opener} (h : settings? t = some o) :
    o.width ≤ t.length := by
  unfold settings? at h
  split at h
  · rename_i u
    simp only [Option.bind_eq_bind, Option.bind_eq_some_iff, Prod.exists] at h
    obtain ⟨-, -, width, hasBody, he, ho⟩ := h
    have hw := width_settingsEnd?_le he
    have hu := congrArg List.length
      (List.takeWhile_append_dropWhile (p := isSettingGlyph) (l := u))
    rw [List.length_append] at hu
    cases ho
    simp; omega
  · cases h

theorem width_nonCapturing?_le {t : Text} {o : Opener} (h : nonCapturing? t = some o) :
    o.width ≤ t.length := by
  unfold nonCapturing? at h
  split at h <;> cases h
  simp

theorem width_lookaround?_le {t : Text} {o : Opener} (h : lookaround? t = some o) :
    o.width ≤ t.length := by
  unfold lookaround? at h
  split at h <;> cases h <;> simp

theorem width_nonBacktracking?_le {t : Text} {o : Opener} (h : nonBacktracking? t = some o) :
    o.width ≤ t.length := by
  unfold nonBacktracking? at h
  split at h <;> cases h
  simp

theorem width_conditional?_lt {t : Text} {o : Opener} (h : conditional? t = some o) :
    o.width < t.length := by
  unfold conditional? at h
  split at h <;> cases h
  simp

/-- What is read as an opener is read as one of its forms. -/
theorem eq_some_of_read?_eq_some {t : Text} {o : Opener} (h : read? t = some o) :
    named? t = some o ∨ balancing? t = some o ∨ nonCapturing? t = some o ∨ settings? t = some o ∨
      lookaround? t = some o ∨ nonBacktracking? t = some o ∨ conditional? t = some o := by
  simp only [read?, Option.orElse_eq_orElse, Option.orElse_eq_or, Option.or_eq_some_iff] at h
  grind

/-- Only `?(` opens a conditional. -/
theorem conditional?_eq_some_of_kind {t : Text} {o : Opener} (h : read? t = some o)
    (hk : o.kind = .conditional) : conditional? t = some o := by
  rcases eq_some_of_read?_eq_some h with h | h | h | h | h | h | h
  · simp only [named?, Option.bind_eq_bind, Option.bind_eq_some_iff, Prod.exists] at h
    obtain ⟨_, _, _, _, _, _, ho⟩ := h
    cases ho
    cases hk
  · simp only [balancing?, Option.bind_eq_bind, Option.bind_eq_some_iff, Prod.exists] at h
    obtain ⟨_, _, _, _, _, _, _, _, _, ho⟩ := h
    cases ho
    cases hk
  · unfold nonCapturing? at h
    split at h <;> cases h
    cases hk
  · unfold settings? at h
    split at h
    · simp only [Option.bind_eq_bind, Option.bind_eq_some_iff, Prod.exists] at h
      obtain ⟨_, _, _, _, _, ho⟩ := h
      cases ho
      cases hk
    · cases h
  · unfold lookaround? at h
    split at h <;> cases h <;> cases hk
  · unfold nonBacktracking? at h
    split at h <;> cases h
    cases hk
  · exact h

/-- The opener of a conditional is one glyph. The parenthesis behind it is not part of it. -/
theorem width_of_conditional {t : Text} {o : Opener} (h : read? t = some o)
    (hk : o.kind = .conditional) : o.width = 1 ∧ o.width < t.length := by
  have hc := conditional?_eq_some_of_kind h hk
  refine ⟨?_, width_conditional?_lt hc⟩
  unfold conditional? at hc
  split at hc <;> cases hc
  rfl

/-- An opener takes up no more glyphs than there are. -/
theorem width_le_of_read?_eq_some {t : Text} {o : Opener} (h : read? t = some o) :
    o.width ≤ t.length := by
  rcases eq_some_of_read?_eq_some h with h | h | h | h | h | h | h
  · exact width_named?_le h
  · exact width_balancing?_le h
  · exact width_nonCapturing?_le h
  · exact width_settings?_le h
  · exact width_lookaround?_le h
  · exact width_nonBacktracking?_le h
  · exact Nat.le_of_lt (width_conditional?_lt h)

end Opener

end RegexGloss
