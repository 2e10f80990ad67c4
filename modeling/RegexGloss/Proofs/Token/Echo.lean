import RegexGloss.Proofs.Spelling.Token
import RegexGloss.Proofs.Token.Append
import RegexGloss.Proofs.Token.Valid

/-!
# Other texts behind a token

A token looks at what follows it only for glyphs that would belong to it: a question mark, a
parenthesis that closes settings, a name with the sign behind it. No space is among them. So the
text behind a token can be replaced by one that echoes it, which has the same glyphs up to its first
space, and the same token is read (`Token.read_of_echoes`). Malformed quantifiers are left out,
because they look for a brace beyond any space.
-/

namespace RegexGloss

open Text

namespace Text

/-- A text echoes another one: what it has in front of its first space, the other one starts
with. -/
def Echoes (v' v : Text) : Prop := ∀ w, ' ' ∉ w → w <+: v' → w <+: v

variable {u v v' w rest : Text}

/-- A first glyph that is no space is that of the text that is echoed. -/
theorem Echoes.head?_eq (h : Echoes v' v) {c : Char} (hc : c ≠ ' ') (hv : v'.head? = some c) :
    v.head? = some c := by
  obtain ⟨t, rfl⟩ := List.head?_eq_some_iff.1 hv
  obtain ⟨t, rfl⟩ := h [c] (by simpa using hc.symm) ⟨t, rfl⟩
  rfl

/-- Glyphs without a space at the start of a text stay there if the end of the text echoes another
one, and is replaced by it. -/
theorem Echoes.exists_append (h : Echoes v' v) (hw : ' ' ∉ w) (huv : u ++ v' = w ++ rest) :
    ∃ rest', u ++ v = w ++ rest' := by
  rcases List.append_eq_append_iff.1 huv with ⟨w', rfl, rfl⟩ | ⟨w', rfl, rfl⟩
  · rw [List.mem_append, not_or] at hw
    obtain ⟨rest', rfl⟩ := h w' hw.2 (List.prefix_append w' rest)
    exact ⟨rest', by rw [List.append_assoc]⟩
  · exact ⟨w' ++ v, by rw [List.append_assoc]⟩

end Text

variable {u v v' : Text}

/-- The same glyphs in front of both texts do not matter. -/
theorem Text.Echoes.append_left (h : v'.Echoes v) (u : Text) : (u ++ v').Echoes (u ++ v) := by
  rintro w hw ⟨rest, hrest⟩
  obtain ⟨rest', hrest'⟩ := h.exists_append hw hrest.symm
  exact ⟨rest', hrest'.symm⟩

/-! ## Classes and quantifiers -/

/-- A class stays the same with another text behind it. One without its bracket takes up everything,
so nothing may be put behind it. -/
theorem CharClass.read_of_length_eq (h : (read (u ++ v)).2 = u.length) (hnil : v = [] → v' = []) :
    read (u ++ v') = read (u ++ v) := by
  have hu := read_of_append (Nat.le_of_eq h)
  by_cases hclass : (read (u ++ v)).1 = .unterminated
  · rw [read_snd_of_unterminated hclass, List.length_append] at h
    obtain rfl : v = [] := List.eq_nil_of_length_eq_zero (by omega)
    rw [hnil rfl]
  · rw [← hu] at hclass ⊢
    exact read_append hclass v'

namespace Quantifier

/-- Counts take up the glyphs that their bounds are written with. -/
theorem Counts.take_width_read (t : Text) : t.take (read t).width = (read t).bound.spell := by
  have hsplit := List.takeWhile_append_dropWhile (p := Char.isDigit) (l := t)
  by_cases hcomma : (t.dropWhile Char.isDigit).head? = some ','
  · obtain ⟨w, hw⟩ := List.head?_eq_some_iff.1 hcomma
    rw [read_of_comma hw]
    generalize t.takeWhile Char.isDigit = least at hsplit ⊢
    have hmost := List.takeWhile_append_dropWhile (p := Char.isDigit) (l := w)
    generalize w.takeWhile Char.isDigit = most at hmost ⊢
    have htext : t = (least ++ ',' :: most) ++ w.dropWhile Char.isDigit := by
      rw [List.append_assoc, List.cons_append, hmost, ← hw, hsplit]
    have hspell : (Counts.mk least true most).bound.spell = least ++ ',' :: most := by
      cases most <;> rfl
    have hwidth : (least ++ ',' :: most).length = (Counts.mk least true most).width := by
      simp only [width, Bool.toNat_true, List.length_append, List.length_cons]
      omega
    rw [hspell, htext]
    exact List.take_left' hwidth
  · rw [read_of_head?_ne hcomma]
    exact (congrArg (List.take _) hsplit.symm).trans (List.take_left' rfl)

/-- A text whose quantifier is closed starts with bounds and a brace behind them. -/
theorem exists_spell_of_read (h : (read t).1 ≠ unterminated) :
    ∃ b : Bound, b.Valid ∧ ∃ rest, t = b.spell ++ '}' :: rest := by
  dsimp only [read] at h
  split at h
  · rename_i hclosed
    obtain ⟨rest, hrest⟩ := List.head?_eq_some_iff.1 hclosed.2
    refine ⟨_, Counts.valid_bound_read hclosed.1, rest, ?_⟩
    rw [← hrest, ← Counts.take_width_read, List.take_append_drop]
  · exact absurd rfl h

/-- A text that holds nothing but the question mark it starts with, if it does. -/
theorem eq_of_length_eq_toNat {t : Text} (h : t.length = (t.head? == some '?').toNat) :
    (if (t.head? == some '?') = true then ['?'] else []) = t := by
  cases t with
  | nil => rfl
  | cons c t =>
    by_cases hc : c = '?'
    · subst hc
      obtain rfl : t = [] := List.eq_nil_of_length_eq_zero (Nat.succ.inj h)
      rfl
    · rw [List.head?_cons, beq_false_of_ne (by simpa using hc)] at h
      cases h

/-- A quantifier that takes up a whole text is read from what it is written with. -/
theorem eq_spell_of_read {bound : Bound} {lazy : Bool}
    (h : read u = (bounded bound lazy, u.length)) : '{' :: u = (bounded bound lazy).spell := by
  obtain ⟨b, hb, rest, rfl⟩ := exists_spell_of_read (t := u) (by rw [h]; exact nofun)
  rw [read_spell_append hb, List.length_append, List.length_cons] at h
  simp only [Prod.mk.injEq, bounded.injEq] at h
  obtain ⟨⟨rfl, rfl⟩, hwidth⟩ := h
  -- behind the brace there is a question mark or nothing
  rw [spell, eq_of_length_eq_toNat (t := rest) (by omega)]

/-- What a quantifier is written with is read as that quantifier. -/
theorem read_of_eq_spell {bound : Bound} {lazy : Bool} (hu : '{' :: u = (bounded bound lazy).spell)
    (hvalid : (bounded bound lazy).Valid) (hv : lazy = false → v.head? ≠ some '?') :
    read (u ++ v) = (bounded bound lazy, u.length) := by
  obtain ⟨c, w, hspell, hread⟩ := reads_spell hvalid (t := v) fun hgreedy =>
    hv (by simpa [Atom.isGreedy] using hgreedy)
  obtain ⟨rfl, rfl⟩ := List.cons.inj (hu.trans hspell)
  rw [Token.readGlyph, Prod.mk.injEq, Token.atom.injEq, Atom.quantifier.injEq] at hread
  exact Prod.ext hread.1 hread.2

/-- A quantifier that is closed stays the same with another text behind it. -/
theorem read_of_echoes {bound : Bound} {lazy : Bool}
    (h : read (u ++ v) = (bounded bound lazy, u.length)) (hv : v'.Echoes v) :
    read (u ++ v') = (bounded bound lazy, u.length) := by
  have hu : read u = (bounded bound lazy, u.length) := by
    rw [← h]
    exact read_of_append (Nat.le_of_eq (congrArg Prod.snd h))
  have hspell := eq_spell_of_read hu
  have hvalid : (bounded bound lazy).Valid := by
    have hvalid := valid_read u
    rw [hu] at hvalid
    exact hvalid.resolve_right nofun
  refine read_of_eq_spell hspell hvalid fun hlazy hquestion => ?_
  subst hlazy
  obtain ⟨t, rfl⟩ := List.head?_eq_some_iff.1 (hv.head?_eq (by decide) hquestion)
  -- with a question mark behind it, the quantifier would be lazy
  have hlazy : '{' :: (u ++ ['?']) = (bounded bound true).spell := by
    rw [← List.cons_append, hspell]
    simp [spell]
  have hread := read_of_eq_spell (v := t) hlazy hvalid nofun
  rw [List.append_assoc, List.singleton_append, h] at hread
  cases hread

end Quantifier

/-! ## Escapes -/

namespace Escape

/-- No backreference is completed by a text that echoes one by which none is. -/
theorem backreference?_of_echoes (h : backreference? (u ++ v) = none) (hv : v'.Echoes v) :
    backreference? (u ++ v') = none := by
  cases huv : backreference? (u ++ v') with
  | none => rfl
  | some r =>
    obtain ⟨w, hw, name, rest, hname, rfl⟩ := (backreference?_eq_some_iff _ _).1 huv
    obtain ⟨hne, hall, rfl⟩ := (Opener.wordUpTo?_eq_some_iff rfl _ _ _).1 hname
    have hspace : ' ' ∉ 'k' :: '<' :: (name ++ ['>']) := by
      have hword : ' ' ∉ name := fun hmem => absurd (hall ' ' hmem) (by decide)
      simp [hword]
    have hsplit : u ++ v' = 'k' :: '<' :: (name ++ ['>']) ++ rest := by simpa using hw
    obtain ⟨rest', hrest⟩ := hv.exists_append hspace hsplit
    have hread : backreference? (u ++ v) = some (name, name.length + 3) :=
      (backreference?_eq_some_iff _ _).2 ⟨name ++ '>' :: rest', by simpa using hrest, name, rest',
        (Opener.wordUpTo?_eq_some_iff rfl _ _ _).2 ⟨hne, hall, rfl⟩, rfl⟩
    rw [h] at hread
    cases hread

/-- An escape stays the same with another text behind it. -/
theorem read?_of_echoes {escape : Escape} (h : read? (u ++ v) = some (escape, u.length))
    (hv : v'.Echoes v) : read? (u ++ v') = some (escape, u.length) := by
  have hu := read?_of_append h (Nat.le_refl _)
  cases hback : backreference? u with
  | some r =>
    simp only [read?, hback] at hu
    simp only [read?, backreference?_append_right hback v', hu]
  | none =>
    -- one that ends behind the escape would have been read instead of it
    have hboth : backreference? (u ++ v) = none := by
      cases hboth : backreference? (u ++ v) with
      | none => rfl
      | some r =>
        obtain ⟨name, width⟩ := r
        simp only [read?, hboth, Option.some.injEq, Prod.mk.injEq] at h
        obtain ⟨-, rfl⟩ := h
        rw [readsLocally_backreference?.restrict u v _ hboth (Nat.le_refl _)] at hback
        cases hback
    have hnone := backreference?_of_echoes hboth hv
    simp only [read?, hback] at hu
    simp only [read?, hnone]
    cases u with
    | nil => cases hu
    | cons c u => exact readGlyph?_append hu v'

end Escape

/-! ## Tokens -/

namespace Token

variable {token : Token}

/-- A question mark behind a parenthesis does not start a plain group. -/
theorem readOpening_question_ne (t : Text) : (readOpening ('?' :: t)).1 ≠ .openPlain := by
  rw [readOpening_question]
  cases Opener.read? ('?' :: t) with
  | none => exact nofun
  | some o =>
    obtain ⟨kind, width, hasBody⟩ := o
    cases kind <;> cases hasBody <;> exact nofun

/-- Settings that a parenthesis closes right behind their glyphs take it up. -/
theorem readOpening_append_close {list : List Setting}
    (h : readOpening u = (openGroup (.settings list), u.length)) (t : Text) :
    readOpening (u ++ ')' :: t) = (bareGroup (.settings list), u.length + 1) := by
  by_cases hq : u.head? = some '?'
  · obtain ⟨w, rfl⟩ := List.head?_eq_some_iff.1 hq
    rw [readOpening_question] at h
    cases ho : Opener.read? ('?' :: w) with
    | none =>
      rw [ho] at h
      cases h
    | some o =>
      rw [ho, Option.map_some, Option.getD_some, Prod.mk.injEq] at h
      obtain ⟨htoken, hreach⟩ := h
      obtain ⟨hkind, hbody⟩ := Opener.eq_of_token_eq_openGroup htoken
      rw [Opener.reach, if_neg (by simp [hkind])] at hreach
      have hsettings := Opener.settings?_of_kind ho hkind
      have hclosed := Opener.settings?_append_close hsettings hbody hreach t
      have hread : Opener.read? ('?' :: (w ++ ')' :: t)) = some ⟨o.kind, o.width + 1, false⟩ :=
        (Opener.read?_eq_some_iff _ _).2 ⟨.settings, hclosed⟩
      rw [List.cons_append, readOpening_question, hread, hkind, hreach]
      rfl
  · rw [readOpening_of_head?_ne hq] at h
    cases h

/-- What an opening parenthesis starts stays the same with another text behind it. -/
theorem readOpening_of_echoes (h : readOpening (u ++ v) = (token, u.length))
    (hfault : token.isFault = false) (hv : v'.Echoes v) :
    readOpening (u ++ v') = (token, u.length) := by
  have hu : readOpening u = (token, u.length) := by
    rw [← h]
    refine readOpening_of_append (Nat.le_of_eq (congrArg Prod.snd h)) ?_
    rw [h]
    exact hfault
  cases u with
  | nil =>
    rw [← hu]
    refine readOpening_of_head?_ne fun hquestion => ?_
    obtain ⟨t, rfl⟩ := List.head?_eq_some_iff.1 (hv.head?_eq (by decide) hquestion)
    exact readOpening_question_ne t (congrArg Prod.fst (h.trans hu.symm))
  | cons c u =>
    by_cases hc : c = '?'
    · subst hc
      rw [List.cons_append] at h ⊢
      cases hread : Opener.read? ('?' :: u) with
      | none =>
        rw [readOpening_question, hread] at hu
        cases hu
      | some o =>
        have htoken := hu
        rw [readOpening_question, hread, Option.map_some, Option.getD_some, Prod.mk.injEq] at htoken
        obtain ⟨rfl, hreach⟩ := htoken
        -- settings that are closed by the one text are closed by the other one, too
        have happend : Opener.read? ('?' :: (u ++ v')) = some o := by
          refine Opener.read?_append hread fun hclose hbody list hkind => ?_
          obtain ⟨t, rfl⟩ := List.head?_eq_some_iff.1 (hv.head?_eq (by decide) hclose)
          rw [Opener.token_of_hasBody hbody (by rw [hkind]; exact nofun), hkind] at hu
          rw [← List.cons_append, readOpening_append_close hu, Prod.mk.injEq] at h
          exact absurd h.2 (Nat.succ_ne_self _)
        rw [readOpening_question, happend, Option.map_some, Option.getD_some, hreach]
    · rw [readOpening_of_head?_ne (by simpa using hc)] at hu
      cases hu

/-- A quantifier of one glyph stays the same with another text behind it. -/
theorem readRepeat_of_echoes {description : Text}
    (h : readRepeat description (u ++ v) = (token, u.length)) (hv : v'.Echoes v) :
    readRepeat description (u ++ v') = (token, u.length) := by
  cases u with
  | nil =>
    have hquestion : v.head? ≠ some '?' := by
      intro hquestion
      obtain ⟨t, rfl⟩ := List.head?_eq_some_iff.1 hquestion
      cases h
    rw [← h, List.nil_append, List.nil_append, readRepeat_of_head?_ne hquestion,
      readRepeat_of_head?_ne fun hquestion' => hquestion (hv.head?_eq (by decide) hquestion')]
  | cons c u =>
    by_cases hc : c = '?'
    · subst hc
      exact h
    · rw [List.cons_append, readRepeat_of_head?_ne (by simpa using hc)] at h
      cases h

/-- A token stays the same with another text behind it, unless it is a malformed quantifier. -/
theorem readGlyph_of_echoes {c : Char} (h : readGlyph c (u ++ v) = (token, u.length))
    (hfault : token.isFault = false) (hquantifier : token ≠ .atom (.quantifier .unterminated))
    (hv : v'.Echoes v) (hnil : v = [] → v' = []) : readGlyph c (u ++ v') = (token, u.length) := by
  unfold readGlyph at h
  split at h
  · exact readOpening_of_echoes h hfault hv
  · exact h
  · rw [readGlyph, CharClass.read_of_length_eq (congrArg Prod.snd h) hnil, h]
  · cases he : Escape.read? (u ++ v) with
    | none =>
      rw [he, Prod.mk.injEq] at h
      rw [← h.1] at hfault
      cases hfault
    | some r =>
      obtain ⟨escape, width⟩ := r
      rw [he, Prod.mk.injEq] at h
      obtain ⟨rfl, rfl⟩ := h
      rw [readGlyph, Escape.read?_of_echoes he hv]
  · rw [Prod.mk.injEq] at h
    obtain ⟨rfl, hwidth⟩ := h
    cases hq : (Quantifier.read (u ++ v)).1 with
    | unterminated => exact absurd (congrArg (atom ∘ Atom.quantifier) hq) hquantifier
    | bounded bound lazy => rw [readGlyph, Quantifier.read_of_echoes (Prod.ext hq hwidth) hv]
  iterate 5 exact h
  iterate 3 exact readRepeat_of_echoes h hv
  · -- any other glyph is a literal by itself
    rw [← h]
    unfold readGlyph
    split <;> simp_all

/-- A token stays the same with another text behind it, unless it is a comment or a malformed
quantifier. -/
theorem read_of_echoes {skipping : Bool} {c : Char}
    (h : read skipping c (u ++ v) = (token, u.length)) (hfault : token.isFault = false)
    (hcomment : token ≠ .comment) (hquantifier : token ≠ .atom (.quantifier .unterminated))
    (hv : v'.Echoes v) (hnil : v = [] → v' = []) :
    read skipping c (u ++ v') = (token, u.length) := by
  by_cases hblank : (skipping && isSkipped c) = true
  · rw [read, if_pos hblank] at h
    rw [read, if_pos hblank, h]
  by_cases hhash : (skipping && c == '#') = true
  · rw [read, if_neg hblank, if_pos hhash] at h
    exact absurd (congrArg Prod.fst h).symm hcomment
  · rw [read, if_neg hblank, if_neg hhash] at h
    rw [read, if_neg hblank, if_neg hhash]
    exact readGlyph_of_echoes h hfault hquantifier hv hnil

end Token

end RegexGloss
