import RegexGloss.Proofs.Opener.Alphabet

/-!
# Openers do not depend on what follows them

An opener is told by its glyphs, and if there are fewer of them it is not taken for another one.
So an opener is read the same from a text that is cut off anywhere behind it. This is said of each
form of opener by `ReadsLocally`, and carries over to the choice between the forms
(`Opener.readsLocally_read?`).
-/

namespace RegexGloss

/-! ## Texts that are cut off -/

namespace Text

variable {p : Char → Bool} {u v : Text}

/-- What is taken while a property holds is the same where the text is cut off behind it. -/
theorem takeWhile_of_append (h : ((u ++ v).takeWhile p).length ≤ u.length) :
    u.takeWhile p = (u ++ v).takeWhile p := by
  have htake := List.take_takeWhile (l := u ++ v) (p := p) (i := u.length)
  rw [List.take_left, List.take_of_length_le h] at htake
  exact htake.symm

theorem dropWhile_of_append (h : ((u ++ v).takeWhile p).length ≤ u.length) :
    (u ++ v).dropWhile p = u.dropWhile p ++ v := by
  refine (List.append_right_inj ((u ++ v).takeWhile p)).1 ?_
  rw [List.takeWhile_append_dropWhile, ← List.append_assoc, ← takeWhile_of_append h,
    List.takeWhile_append_dropWhile]

/-- Where a property ends within the first part of a text, what follows does not matter. -/
theorem takeWhile_append_of_dropWhile_ne (h : u.dropWhile p ≠ []) :
    (u ++ v).takeWhile p = u.takeWhile p := by
  have hlength := congrArg List.length (List.takeWhile_append_dropWhile (p := p) (l := u))
  have hpos := List.length_pos_iff.2 h
  rw [List.length_append] at hlength
  rw [List.takeWhile_append, if_neg (by omega)]

theorem dropWhile_append_of_dropWhile_ne (h : u.dropWhile p ≠ []) :
    (u ++ v).dropWhile p = u.dropWhile p ++ v := by
  rw [List.dropWhile_append, if_neg (by simpa using h)]

/-- A glyph that the second part of a text does not start with is the first glyph only if it is
that of the first part. -/
theorem head?_append_eq_some_iff {c : Char} (hv : v.head? ≠ some c) :
    (u ++ v).head? = some c ↔ u.head? = some c := by
  cases u with
  | nil => simpa using hv
  | cons a u => rfl

/-- The first glyph of a text is that of its first part, unless this is empty. -/
theorem exists_cons_of_append_eq_cons {t : Text} {c : Char} (h : u ++ v = c :: t)
    (hu : 0 < u.length) : ∃ w, u = c :: w ∧ w ++ v = t := by
  rcases List.append_eq_cons_iff.1 h with ⟨rfl, -⟩ | ⟨w, rfl, rfl⟩
  · exact absurd hu (Nat.lt_irrefl 0)
  · exact ⟨w, rfl, rfl⟩

end Text

open Text

/-! ## Local readers -/

/-- A reader that looks at no more glyphs than it says: it reads the same from the first part of a
text as from the whole text if all of these are in the first part, and it reads something from the
whole text if it does from the first part. -/
structure ReadsLocally {α : Type} (reach : α → Nat) (read? : Text → Option α) : Prop where
  /-- What is read is read from a first part that is long enough, too. -/
  restrict : ∀ u v a, read? (u ++ v) = some a → reach a ≤ u.length → read? u = some a
  /-- Where something is read, something is read if more glyphs follow. -/
  extend : ∀ u v a, read? u = some a → ∃ b, read? (u ++ v) = some b

namespace ReadsLocally

variable {α : Type} {reach : α → Nat} {f g : Text → Option α}

/-- Where nothing is read, nothing is read from a first part. -/
theorem eq_none (hf : ReadsLocally reach f) {u v : Text} (h : f (u ++ v) = none) : f u = none := by
  cases hu : f u with
  | none => rfl
  | some a =>
    obtain ⟨b, hb⟩ := hf.extend u v a hu
    rw [h] at hb
    cases hb

/-- Trying one local reader after the other is local. -/
theorem orElse (hf : ReadsLocally reach f) (hg : ReadsLocally reach g) :
    ReadsLocally reach fun t => f t <|> g t where
  restrict u v a h hle := by
    simp only [Option.orElse_eq_orElse, Option.orElse_eq_or, Option.or_eq_some_iff] at h ⊢
    rcases h with h | ⟨hnone, h⟩
    · exact .inl (hf.restrict u v a h hle)
    · exact .inr ⟨hf.eq_none hnone, hg.restrict u v a h hle⟩
  extend u v a h := by
    -- with more glyphs the first reader may read something where it did not, which is as good
    cases hfv : f (u ++ v) with
    | some b => exact ⟨b, rfl⟩
    | none =>
      simp only [Option.orElse_eq_orElse, Option.orElse_eq_or, hf.eq_none hfv,
        Option.none_or] at h ⊢
      exact hg.extend u v a h

end ReadsLocally

namespace Opener

/-! ## Names -/

/-- The number of glyphs that tell an opener. That of a conditional is told by the parenthesis of
its condition, which does not belong to it. -/
def reach (o : Opener) : Nat := if o.kind = .conditional then o.width + 1 else o.width

/-- A word and the glyph behind it are read exactly where they stand. -/
theorem wordUpTo?_eq_some_iff {close : Char} (hclose : isWord close = false) (t name rest : Text) :
    wordUpTo? close t = some (name, rest) ↔
      name ≠ [] ∧ (∀ c ∈ name, isWord c) ∧ t = name ++ close :: rest := by
  have hunicode : Alphabet.unicode.isWord close = false := by rwa [Alphabet.isWord_unicode]
  rw [← Alphabet.wordUpTo?_unicode, Alphabet.wordUpTo?_eq_some_iff hunicode, Alphabet.IsName,
    Alphabet.isWord_unicode, and_assoc]

/-- A name that is closed is read whatever follows. -/
theorem wordUpTo?_append {close : Char} (hclose : isWord close = false) {u name rest : Text}
    (h : wordUpTo? close u = some (name, rest)) (v : Text) :
    wordUpTo? close (u ++ v) = some (name, rest ++ v) := by
  rw [wordUpTo?_eq_some_iff hclose] at h ⊢
  obtain ⟨hname, hall, rfl⟩ := h
  exact ⟨hname, hall, by rw [List.append_assoc, List.cons_append]⟩

/-- A name that is closed stays the same if the text is cut off behind it. -/
theorem wordUpTo?_of_append {close : Char} (hclose : isWord close = false) {u v name rest : Text}
    (h : wordUpTo? close (u ++ v) = some (name, rest)) (hlt : name.length < u.length) :
    ∃ w, wordUpTo? close u = some (name, w) ∧ w ++ v = rest := by
  obtain ⟨hname, hall, heq⟩ := (wordUpTo?_eq_some_iff hclose _ _ _).1 h
  -- the text is cut off inside the name, or behind it
  rcases List.append_eq_append_iff.1 heq with ⟨w, rfl, -⟩ | ⟨w, rfl, hrest⟩
  · rw [List.length_append] at hlt
    omega
  · rw [List.length_append] at hlt
    obtain ⟨w, rfl, rfl⟩ := exists_cons_of_append_eq_cons hrest.symm (by omega)
    exact ⟨w, (wordUpTo?_eq_some_iff hclose _ _ _).2 ⟨hname, hall, rfl⟩, rfl⟩

/-- An opening quote is read whatever follows. -/
theorem quoted?_append {u rest : Text} {close : Char} (h : quoted? u = some (close, rest))
    (v : Text) : quoted? (u ++ v) = some (close, rest ++ v) := by
  unfold quoted? at h
  split at h <;> cases h <;> rfl

/-- An opening quote stays the same if the text is cut off behind it. -/
theorem quoted?_of_append {u v rest : Text} {close : Char}
    (h : quoted? (u ++ v) = some (close, rest)) (hle : 2 ≤ u.length) :
    ∃ w, quoted? u = some (close, w) ∧ w ++ v = rest ∧ u.length = w.length + 2 := by
  obtain ⟨quote, heq⟩ := quoted?_eq_some h
  obtain ⟨w, rfl, hrest⟩ := exists_cons_of_append_eq_cons heq (by omega)
  rw [List.length_cons] at hle
  obtain ⟨w, rfl, rfl⟩ := exists_cons_of_append_eq_cons hrest (by omega)
  refine ⟨w, ?_, rfl, rfl⟩
  unfold quoted? at h
  split at h
  · rename_i hstart
    cases hstart
    cases h
    rfl
  · rename_i hstart
    cases hstart
    cases h
    rfl
  · cases h

/-- No word goes on with the glyph that closes a name. -/
theorem isWord_of_quoted?_eq_some {t rest : Text} {close : Char}
    (h : quoted? t = some (close, rest)) : isWord close = false := by
  unfold quoted? at h
  split at h <;> cases h <;> rfl

theorem named?_eq_some_iff (t : Text) (o : Opener) :
    named? t = some o ↔ ∃ close rest, quoted? t = some (close, rest) ∧
      ∃ name rest', wordUpTo? close rest = some (name, rest') ∧
        ⟨.named name, name.length + 3, true⟩ = o := by
  simp only [← Alphabet.named?_unicode, ← Alphabet.wordUpTo?_unicode, Alphabet.named?_eq_some_iff]

theorem balancing?_eq_some_iff (t : Text) (o : Opener) :
    balancing? t = some o ↔ ∃ close rest, quoted? t = some (close, rest) ∧
      ∃ first rest', wordUpTo? '-' rest = some (first, rest') ∧
        ∃ second rest'', wordUpTo? close rest' = some (second, rest'') ∧
          ⟨.balancing first second, first.length + second.length + 4, true⟩ = o := by
  simp only [← Alphabet.balancing?_unicode, ← Alphabet.wordUpTo?_unicode,
    Alphabet.balancing?_eq_some_iff]

/-- The name of a capture is read whatever follows. -/
theorem named?_append {u : Text} {o : Opener} (h : named? u = some o) (v : Text) :
    named? (u ++ v) = some o := by
  obtain ⟨close, rest, hquote, name, rest', hname, rfl⟩ := (named?_eq_some_iff _ _).1 h
  exact (named?_eq_some_iff _ _).2 ⟨close, _, quoted?_append hquote v, name, _,
    wordUpTo?_append (isWord_of_quoted?_eq_some hquote) hname v, rfl⟩

/-- The names of a balancing group are read whatever follows. -/
theorem balancing?_append {u : Text} {o : Opener} (h : balancing? u = some o) (v : Text) :
    balancing? (u ++ v) = some o := by
  obtain ⟨close, rest, hquote, first, rest', hfirst, second, rest'', hsecond, rfl⟩ :=
    (balancing?_eq_some_iff _ _).1 h
  exact (balancing?_eq_some_iff _ _).2 ⟨close, _, quoted?_append hquote v, first, _,
    wordUpTo?_append rfl hfirst v, second, _,
    wordUpTo?_append (isWord_of_quoted?_eq_some hquote) hsecond v, rfl⟩

theorem readsLocally_named? : ReadsLocally reach named? where
  restrict u v o h hle := by
    obtain ⟨close, rest, hquote, name, rest', hname, rfl⟩ := (named?_eq_some_iff _ _).1 h
    replace hle : name.length + 3 ≤ u.length := hle
    obtain ⟨w, hu, rfl, hlength⟩ := quoted?_of_append hquote (by omega)
    obtain ⟨w', hw, -⟩ :=
      wordUpTo?_of_append (isWord_of_quoted?_eq_some hquote) hname (by omega)
    exact (named?_eq_some_iff _ _).2 ⟨close, w, hu, name, w', hw, rfl⟩
  extend u v o h := ⟨o, named?_append h v⟩

theorem readsLocally_balancing? : ReadsLocally reach balancing? where
  restrict u v o h hle := by
    obtain ⟨close, rest, hquote, first, rest', hfirst, second, rest'', hsecond, rfl⟩ :=
      (balancing?_eq_some_iff _ _).1 h
    replace hle : first.length + second.length + 4 ≤ u.length := hle
    obtain ⟨w, hu, rfl, hlength⟩ := quoted?_of_append hquote (by omega)
    obtain ⟨w', hw, rfl⟩ := wordUpTo?_of_append rfl hfirst (by omega)
    obtain ⟨-, hlength'⟩ := wordUpTo?_eq_some hw
    rw [hlength', List.length_append, List.length_cons] at hlength
    obtain ⟨w'', hw', -⟩ :=
      wordUpTo?_of_append (isWord_of_quoted?_eq_some hquote) hsecond (by omega)
    exact (balancing?_eq_some_iff _ _).2 ⟨close, w, hu, first, w', hw, second, w'', hw', rfl⟩
  extend u v o h := ⟨o, balancing?_append h v⟩

/-! ## Settings -/

/-- The end of settings stays the same if the text is cut off behind it. -/
theorem settingsEnd?_of_append {u v : Text} {width : Nat} {hasBody : Bool}
    (h : settingsEnd? (u ++ v) = some (width, hasBody)) (hle : width ≤ u.length) :
    settingsEnd? u = some (width, hasBody) := by
  unfold settingsEnd? at h
  split at h
  · rename_i heq
    cases h
    obtain ⟨w, rfl, -⟩ := exists_cons_of_append_eq_cons heq (by omega)
    rfl
  · rename_i heq
    cases h
    obtain ⟨w, rfl, hrest⟩ := exists_cons_of_append_eq_cons heq (by omega)
    rw [List.length_cons] at hle
    obtain ⟨w, rfl, -⟩ := exists_cons_of_append_eq_cons hrest (by omega)
    rfl
  · rename_i t hclose heq
    cases h
    obtain ⟨w, rfl, rfl⟩ := exists_cons_of_append_eq_cons heq (by omega)
    -- a body starts here, so no parenthesis follows, and none does where the text is cut off
    cases w with
    | nil => rfl
    | cons c w => simp_all [settingsEnd?]
  · cases h

/-- Settings that are ended are ended whatever follows. -/
theorem exists_settingsEnd?_append {u : Text} {r : Nat × Bool} (h : settingsEnd? u = some r)
    (v : Text) : ∃ r', settingsEnd? (u ++ v) = some r' := by
  have hcolon (t : Text) : ∃ r', settingsEnd? (':' :: t) = some r' := by
    unfold settingsEnd?
    split
    · exact ⟨_, rfl⟩
    · exact ⟨_, rfl⟩
    · exact ⟨_, rfl⟩
    · rename_i hother
      exact absurd rfl (hother t)
  unfold settingsEnd? at h
  split at h
  · exact ⟨_, rfl⟩
  · exact ⟨_, rfl⟩
  · exact hcolon _
  · cases h

/-- Something is left behind settings that are ended. -/
theorem dropWhile_ne_nil_of_settingsEnd? {t : Text} {p : Char → Bool} {r : Nat × Bool}
    (h : settingsEnd? (t.dropWhile p) = some r) : t.dropWhile p ≠ [] := by
  intro hnil
  rw [hnil] at h
  cases h

theorem settings?_eq_some_iff (t : Text) (o : Opener) :
    settings? t = some o ↔ ∃ u, t = '?' :: u ∧ settings true (u.takeWhile isSettingGlyph) ≠ [] ∧
      ∃ width hasBody, settingsEnd? (u.dropWhile isSettingGlyph) = some (width, hasBody) ∧
        ⟨.settings (settings true (u.takeWhile isSettingGlyph)),
          1 + (u.takeWhile isSettingGlyph).length + width, hasBody⟩ = o := by
  unfold settings?
  split
  · rename_i u
    simp [Option.bind_eq_some_iff]
  · rename_i hstart
    constructor
    · intro h
      cases h
    · rintro ⟨u, rfl, -⟩
      exact absurd rfl (hstart u)

theorem readsLocally_settings? : ReadsLocally reach settings? where
  restrict u v o h hle := by
    obtain ⟨t, heq, hsettings, width, hasBody, hend, rfl⟩ := (settings?_eq_some_iff _ _).1 h
    replace hle : 1 + (t.takeWhile isSettingGlyph).length + width ≤ u.length := hle
    obtain ⟨w, rfl, rfl⟩ := exists_cons_of_append_eq_cons heq (by omega)
    rw [List.length_cons] at hle
    have htake := takeWhile_of_append (u := w) (v := v) (p := isSettingGlyph) (by omega)
    rw [dropWhile_of_append (by omega)] at hend
    have hlength := congrArg List.length
      (List.takeWhile_append_dropWhile (p := isSettingGlyph) (l := w))
    rw [List.length_append, htake] at hlength
    refine (settings?_eq_some_iff _ _).2 ⟨w, rfl, by rwa [htake], width, hasBody, ?_, by rw [htake]⟩
    exact settingsEnd?_of_append hend (by omega)
  extend u v o h := by
    obtain ⟨w, rfl, hsettings, width, hasBody, hend, rfl⟩ := (settings?_eq_some_iff _ _).1 h
    -- the settings are ended by some glyph, so those that follow do not add to them
    have hrest : w.dropWhile isSettingGlyph ≠ [] := dropWhile_ne_nil_of_settingsEnd? hend
    obtain ⟨⟨width', hasBody'⟩, hend'⟩ := exists_settingsEnd?_append hend v
    exact ⟨_, (settings?_eq_some_iff _ _).2 ⟨w ++ v, rfl,
      by rwa [takeWhile_append_of_dropWhile_ne hrest], width', hasBody',
      by rw [dropWhile_append_of_dropWhile_ne hrest, hend'], rfl⟩⟩

/-! ## Openers without further parts -/

/-- A reader that tells openers by their first glyphs is local. -/
theorem readsLocally_of_starts {f : Text → Option Opener} (starts : List (Text × Opener))
    (hreach : ∀ r ∈ starts, reach r.2 = r.1.length)
    (hstarts : ∀ r ∈ starts, ∀ t, f (r.1 ++ t) = some r.2)
    (hf : ∀ t o, f t = some o → ∃ r ∈ starts, r.2 = o ∧ r.1 <+: t) : ReadsLocally reach f where
  restrict u v o h hle := by
    obtain ⟨r, hr, rfl, hprefix⟩ := hf _ _ h
    rw [hreach r hr] at hle
    -- a start of the whole text that is no longer than the first part is a start of this
    obtain ⟨w, rfl⟩ := List.prefix_of_prefix_length_le hprefix (List.prefix_append u v) hle
    exact hstarts r hr w
  extend u v o h := by
    obtain ⟨r, hr, rfl, ⟨w, rfl⟩⟩ := hf _ _ h
    exact ⟨r.2, by rw [List.append_assoc, hstarts r hr]⟩

theorem readsLocally_nonCapturing? : ReadsLocally reach nonCapturing? := by
  refine readsLocally_of_starts [(['?', ':'], ⟨.nonCapturing, 2, true⟩)] (by decide)
    (by simp [nonCapturing?]) (fun t o h => ?_)
  unfold nonCapturing? at h
  split at h <;> cases h
  simp

theorem readsLocally_lookaround? : ReadsLocally reach lookaround? := by
  refine readsLocally_of_starts [
    (['?', '='], ⟨.lookaround .ahead false, 2, true⟩),
    (['?', '!'], ⟨.lookaround .ahead true, 2, true⟩),
    (['?', '<', '='], ⟨.lookaround .behind false, 3, true⟩),
    (['?', '<', '!'], ⟨.lookaround .behind true, 3, true⟩)] (by decide)
    (by simp [lookaround?]) (fun t o h => ?_)
  unfold lookaround? at h
  split at h <;> cases h <;> simp

theorem readsLocally_nonBacktracking? : ReadsLocally reach nonBacktracking? := by
  refine readsLocally_of_starts [(['?', '>'], ⟨.nonBacktracking, 2, true⟩)] (by decide)
    (by simp [nonBacktracking?]) (fun t o h => ?_)
  unfold nonBacktracking? at h
  split at h <;> cases h
  simp

theorem readsLocally_conditional? : ReadsLocally reach conditional? := by
  refine readsLocally_of_starts [(['?', '('], ⟨.conditional, 1, true⟩)] (by decide)
    (by simp [conditional?]) (fun t o h => ?_)
  unfold conditional? at h
  split at h <;> cases h
  simp

/-! ## Any opener -/

/-- No opener depends on what follows the glyphs that tell it. -/
theorem readsLocally_read? : ReadsLocally reach read? :=
  readsLocally_named?.orElse (readsLocally_balancing?.orElse (readsLocally_nonCapturing?.orElse
    (readsLocally_settings?.orElse (readsLocally_lookaround?.orElse
      (readsLocally_nonBacktracking?.orElse readsLocally_conditional?)))))

end Opener

end RegexGloss
