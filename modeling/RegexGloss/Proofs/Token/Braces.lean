import RegexGloss.Proofs.Reader.Rereading
import RegexGloss.Proofs.Token.Echo

/-!
# Quantifiers in braces

An opening brace always starts a quantifier, and reading goes on behind it whatever follows.
`Quantifier.Recognizes` says what is made of a text that starts with a brace, without going through
its glyphs one by one. One of the forms `{n}`, `{n,}` and `{n,m}` is taken as it is written, with a
question mark behind it. Of anything else, the longest stretch is taken that such a form could start
with, and then everything up to a closing brace, if no parenthesis is closed before it.

Main statement: `recognizes_quantifier`.
-/

namespace RegexGloss

variable {t u : Text}

/-! ## Digits and commas -/

/-- The glyphs between the braces of a quantifier: one or more digits, and perhaps a comma with any
digits behind it. -/
def Text.IsBounds (t : Text) : Prop :=
  t.IsCount ∨ ∃ least most : Text, least.IsCount ∧ (∀ c ∈ most, c.isDigit = true) ∧
    t = least ++ ',' :: most

/-- Any digits, and perhaps a comma with any digits behind it. -/
def Text.IsCounts (t : Text) : Prop :=
  (∀ c ∈ t, c.isDigit = true) ∨ ∃ least most : Text, (∀ c ∈ least, c.isDigit = true) ∧
    (∀ c ∈ most, c.isDigit = true) ∧ t = least ++ ',' :: most

/-- What stands between the braces of a quantifier is what bounds are written with. -/
theorem Text.isBounds_iff : t.IsBounds ↔ ∃ b : Bound, b.Valid ∧ b.spell = t := by
  constructor
  · rintro (h | ⟨least, most, hleast, hmost, rfl⟩)
    · exact ⟨.exactly t, h, rfl⟩
    · cases most with
      | nil => exact ⟨.atLeast least, hleast, rfl⟩
      | cons c most =>
        exact ⟨.between least (c :: most), ⟨hleast, List.cons_ne_nil c most, hmost⟩, rfl⟩
  · rintro ⟨b, hb, rfl⟩
    cases b with
    | exactly count => exact .inl hb
    | atLeast least => exact .inr ⟨least, [], hb, nofun, rfl⟩
    | between least most => exact .inr ⟨least, most, hb.1, hb.2.2, rfl⟩

namespace Quantifier

/-- Glyphs that a text starts with are among the first ones with a property that all of them
have. -/
theorem length_le_takeWhile {p : Char → Bool} (h : ∀ c ∈ u, p c = true) (v : Text) :
    u.length ≤ ((u ++ v).takeWhile p).length := by
  rw [List.takeWhile_append_of_pos h, List.length_append]
  exact Nat.le_add_right _ _

namespace Counts

/-- Counts are digits, and perhaps a comma with digits behind it. -/
theorem isCounts_take (t : Text) : Text.IsCounts (t.take (read t).width) := by
  rw [take_width_read]
  by_cases hcomma : (t.dropWhile Char.isDigit).head? = some ','
  · obtain ⟨w, hw⟩ := List.head?_eq_some_iff.1 hcomma
    rw [read_of_comma hw]
    refine .inr ⟨t.takeWhile Char.isDigit, w.takeWhile Char.isDigit,
      fun c => Text.isDigit_of_mem_takeWhile, fun c => Text.isDigit_of_mem_takeWhile, ?_⟩
    cases w.takeWhile Char.isDigit <;> rfl
  · rw [read_of_head?_ne hcomma]
    exact .inl fun c => Text.isDigit_of_mem_takeWhile

/-- No digits and commas that a text starts with are longer than its counts. -/
theorem length_le_width (h : u.IsCounts) (v : Text) : u.length ≤ (read (u ++ v)).width := by
  rcases h with hdigits | ⟨least, most, hleast, hmost, rfl⟩
  · -- the digits before a comma are all that is needed
    have hle := length_le_takeWhile hdigits v
    by_cases hcomma : ((u ++ v).dropWhile Char.isDigit).head? = some ','
    · obtain ⟨w, hw⟩ := List.head?_eq_some_iff.1 hcomma
      rw [read_of_comma hw, width]
      dsimp only
      omega
    · rw [read_of_head?_ne hcomma, width]
      dsimp only
      omega
  · have hcomma : ∀ w : Text, (least ++ ',' :: w).dropWhile Char.isDigit = ',' :: w :=
      fun w => Text.dropWhile_append_cons hleast rfl
    have hle := length_le_takeWhile hmost v
    rw [List.append_assoc, List.cons_append, read_of_comma (hcomma _), width,
      Text.takeWhile_append_cons hleast rfl, List.length_append, List.length_cons]
    simp only [Bool.toNat_true]
    omega

end Counts

/-! ## Stray braces -/

/-- Up to a stray brace, there is no other one and no parenthesis is closed. -/
theorem strayWidth_spec (t : Text) :
    (∃ skipped rest, t = skipped ++ '}' :: rest ∧ '}' ∉ skipped ∧ ')' ∉ skipped ∧
      strayWidth t = skipped.length + 1) ∨
    (∀ skipped rest, t = skipped ++ '}' :: rest → ')' ∈ skipped) ∧ strayWidth t = 0 := by
  induction t with
  | nil => exact .inr ⟨fun skipped rest h => by simp at h, rfl⟩
  | cons c t ih =>
    rw [strayWidth_cons]
    by_cases hclose : c = ')'
    · refine .inr ⟨?_, if_pos hclose⟩
      rintro (_ | ⟨d, skipped⟩) rest h
      · cases hclose
        cases h
      · obtain ⟨rfl, -⟩ := List.cons.inj h
        exact hclose ▸ List.mem_cons_self
    rw [if_neg hclose]
    by_cases hbrace : c = '}'
    · exact .inl ⟨[], t, by rw [hbrace]; rfl, nofun, nofun, if_pos hbrace⟩
    rw [if_neg hbrace]
    rcases ih with ⟨skipped, rest, rfl, hbraces, hcloses, hwidth⟩ | ⟨hnone, hwidth⟩
    · refine .inl ⟨c :: skipped, rest, rfl, ?_, ?_, ?_⟩
      · exact List.not_mem_cons_of_ne_of_not_mem (Ne.symm hbrace) hbraces
      · exact List.not_mem_cons_of_ne_of_not_mem (Ne.symm hclose) hcloses
      · rw [hwidth, if_neg (Nat.succ_ne_zero _), List.length_cons]
    · refine .inr ⟨?_, by rw [hwidth, if_pos rfl]⟩
      rintro (_ | ⟨d, skipped⟩) rest h
      · exact absurd (List.cons.inj h).1 hbrace
      · obtain ⟨rfl, rfl⟩ := List.cons.inj h
        exact List.mem_cons_of_mem _ (hnone skipped rest rfl)

/-! ## One quantifier -/

/-- A quantifier that is not closed takes up its counts and the glyphs up to a stray brace. -/
theorem read_snd_of_unterminated (h : (read t).1 = unterminated) :
    (read t).2 = (Counts.read t).width + strayWidth (t.drop (Counts.read t).width) := by
  dsimp only [read] at h ⊢
  split at h
  · cases h
  · rw [if_neg ‹_›]

/-- What is made of a text that starts with an opening brace: a quantifier and the number of glyphs
it takes up. -/
structure Recognizes (t : Text) (q : Quantifier) (width : Nat) : Prop where
  /-- The quantifier is closed exactly if the text starts with digits in braces, with a comma and
  any digits behind them or without. -/
  bounded_iff : q ≠ unterminated ↔ ∃ bounds rest : Text, bounds.IsBounds ∧
    t = '{' :: (bounds ++ '}' :: rest)
  /-- A closed quantifier has the bounds that are written and is lazy if a question mark follows.
  It takes up both of them. -/
  bounded : ∀ bound lazy, q = .bounded bound lazy → bound.Valid ∧ ∃ rest,
    t = '{' :: (bound.spell ++ '}' :: rest) ∧ (lazy = true ↔ rest.head? = some '?') ∧
      width = bound.spell.length + 2 + lazy.toNat
  /-- Any other brace takes up the longest stretch of digits with a comma at most among them, and
  then the glyphs up to the first closing brace, unless there is a closing parenthesis among
  them. -/
  unterminated : q = unterminated → ∃ counts rest : Text, t = '{' :: (counts ++ rest) ∧
    counts.IsCounts ∧
    (∀ other rest' : Text, t = '{' :: (other ++ rest') → other.IsCounts →
      other.length ≤ counts.length) ∧
    ((∃ skipped rest', rest = skipped ++ '}' :: rest' ∧ '}' ∉ skipped ∧ ')' ∉ skipped ∧
        width = counts.length + skipped.length + 2) ∨
      (∀ skipped rest', rest = skipped ++ '}' :: rest' → ')' ∈ skipped) ∧
        width = counts.length + 1)

/-- What is read behind an opening brace is what is made of the text from there. -/
theorem recognizes_read (t : Text) : Recognizes ('{' :: t) (read t).1 ((read t).2 + 1) where
  bounded_iff := by
    constructor
    · intro h
      obtain ⟨b, hb, rest, ht⟩ := exists_spell_of_read h
      exact ⟨b.spell, rest, Text.isBounds_iff.2 ⟨b, hb, rfl⟩, congrArg _ ht⟩
    · rintro ⟨bounds, rest, hbounds, ht⟩
      obtain ⟨b, hb, rfl⟩ := Text.isBounds_iff.1 hbounds
      rw [List.cons.inj ht |>.2, read_spell_append hb]
      exact nofun
  bounded bound lazy h := by
    obtain ⟨b, hb, rest, rfl⟩ := exists_spell_of_read (t := t) (by rw [h]; exact nofun)
    rw [read_spell_append hb] at h ⊢
    cases h
    refine ⟨hb, rest, rfl, beq_iff_eq, ?_⟩
    dsimp only
    omega
  unterminated h := by
    have hsplit := List.take_append_drop (Counts.read t).width t
    have hlength := List.length_take_of_le (Counts.width_read_le t)
    -- the longest stretch is that of the counts, whether or not a stray brace follows
    refine ⟨t.take (Counts.read t).width, t.drop (Counts.read t).width, by rw [hsplit],
      Counts.isCounts_take t, ?_, ?_⟩
    · intro other rest ht hother
      obtain rfl := (List.cons.inj ht).2
      rw [hlength]
      exact Counts.length_le_width hother rest
    · rw [read_snd_of_unterminated h, hlength]
      rcases strayWidth_spec (t.drop (Counts.read t).width) with
        ⟨skipped, rest, hrest, hbraces, hcloses, hwidth⟩ | ⟨hnone, hwidth⟩
      · exact .inl ⟨skipped, rest, hrest, hbraces, hcloses, by omega⟩
      · exact .inr ⟨hnone, by omega⟩

end Quantifier

/-! ## Patterns -/

/-- A brace that a pattern goes on with is taken as a quantifier, and reading goes on behind it. -/
theorem recognizes_quantifier {pattern : Text} {o : Options} {start : Nat}
    {before after : List Lexeme} {l : Lexeme} {a : Assembly}
    (hlex : Lexeme.lex o.ignoreWhitespace (pattern.drop start) = before ++ l :: after)
    (hrun : Assembly.run o { offset := start } before = .ok a)
    (hglyph : pattern[a.offset]? = some '{') :
    ∃ q b, Assembly.step o a l = .ok b ∧ b.nodes = .atom (.quantifier q) :: a.nodes ∧
      ∃ width, b.offset = a.offset + width ∧
        Quantifier.Recognizes (pattern.drop a.offset) q width := by
  obtain ⟨c, u, hu, htoken, hwidth⟩ := Lexeme.exists_read_of_lex_eq hlex
  have hbefore : ∀ k ∈ before, k.Shaped := fun k hk =>
    Lexeme.shaped_of_mem_lex (hlex ▸ List.mem_append_left _ hk)
  have hoffset := Assembly.offset_of_run hbefore hrun
  -- the token is read from the glyphs at the offset, and there the brace stands
  rw [List.drop_drop, ← hoffset] at hu
  rw [← List.head?_drop, hu] at hglyph
  obtain rfl : c = '{' := Option.some.inj hglyph
  have hread : Token.read o.ignoreWhitespace '{' u = Token.readGlyph '{' u := by
    cases o.ignoreWhitespace <;> rfl
  rw [hread] at htoken hwidth
  obtain ⟨token, width⟩ := l
  obtain rfl := htoken
  obtain rfl := hwidth
  refine ⟨(Quantifier.read u).1, _, rfl, rfl, _, rfl, ?_⟩
  rw [hu]
  exact Quantifier.recognizes_read u

/-- A brace in a group that is still open, without one that closes it before the parenthesis. -/
theorem recognizes_quantifier_open :
    ∃ a, Assembly.run {} { offset := 0 } [⟨.openPlain, 1⟩, ⟨.atom (.literal ['a']), 1⟩] = .ok a ∧
      ∃ q b, Assembly.step {} a ⟨.atom (.quantifier .unterminated), 3⟩ = .ok b ∧
        b.nodes = [.atom (.quantifier q), .atom (.literal ['a'])] ∧
        ∃ width, b.offset = 2 + width ∧
          Quantifier.Recognizes ['{', '1', ',', ')', '}'] q width := by
  obtain ⟨a, hrun⟩ : ∃ a, Assembly.run {} { offset := 0 }
      [⟨.openPlain, 1⟩, ⟨.atom (.literal ['a']), 1⟩] = .ok a := ⟨_, rfl⟩
  have hlex : Lexeme.lex false (['(', 'a', '{', '1', ',', ')', '}'].drop 0) =
      [⟨.openPlain, 1⟩, ⟨.atom (.literal ['a']), 1⟩] ++
        ⟨.atom (.quantifier .unterminated), 3⟩ ::
          [⟨.close, 1⟩, ⟨.atom (.literal ['}']), 1⟩] := rfl
  have hglyph : ['(', 'a', '{', '1', ',', ')', '}'][a.offset]? = some '{' := by
    cases hrun
    rfl
  have hquantifier := recognizes_quantifier hlex hrun hglyph
  refine ⟨a, hrun, ?_⟩
  cases hrun
  exact hquantifier

end RegexGloss
