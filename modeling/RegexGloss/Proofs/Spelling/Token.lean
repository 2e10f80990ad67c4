import RegexGloss.Proofs.Opener.Forms
import RegexGloss.Proofs.Spelling.Basic

/-!
# Reading what is written

What `Atom.spell` and `GroupKind.opener` write is read as one token, the one that it was written
for (`Atom.reads_spell`, `GroupKind.reads_opener`). What follows matters in few cases only: a `?`
behind a greedy quantifier or a plain parenthesis, and a `)` behind settings.
-/

namespace RegexGloss

open Text

variable {t : Text}

/-! ## Atoms -/

theorem Escape.read?_of_mem_metaGlyphs {c : Char} (h : c ∈ metaGlyphs) (t : Text) :
    read? (c :: t) = some (literal c, 1) := by
  simp only [metaGlyphs, List.mem_cons, List.not_mem_nil, or_false] at h
  rcases h with rfl | rfl | rfl | rfl | rfl | rfl | rfl | rfl | rfl | rfl | rfl | rfl <;> rfl

theorem Token.readGlyph_of_notMem_metaGlyphs {c : Char} (h : c ∉ metaGlyphs) (hspace : c ≠ ' ')
    (t : Text) : readGlyph c t = (.atom (.literal [c]), 0) := by
  unfold readGlyph
  split <;> simp_all [metaGlyphs]

/-- A quoted glyph is read as the glyph itself. -/
theorem Token.reads_quote {c : Char} (h : c ≠ ' ') : Reads (.atom (.literal [c])) (quote c) t := by
  unfold quote
  split
  · rename_i hmeta
    exact reads_escape _ (u := [c]) (Escape.read?_of_mem_metaGlyphs hmeta t)
  · rename_i hmeta
    exact reads_cons (readGlyph_of_notMem_metaGlyphs hmeta h t)

/-- Members are read up to the bracket behind them. -/
theorem CharClass.readMembers_append_bracket {members : Text} (h : ']' ∉ members)
    (negated : Bool) (t : Text) :
    readMembers negated (members ++ ']' :: t) = (set members negated, members.length + 1) := by
  have hmembers : ∀ a ∈ members, (a != ']') = true := by
    intro a ha
    rw [bne_iff_ne]
    rintro rfl
    exact h ha
  have htake : (members ++ ']' :: t).takeWhile (· != ']') = members :=
    takeWhile_append_cons hmembers rfl
  simp only [readMembers, htake, List.length_append, List.length_cons]
  rw [if_pos (by omega)]

/-- A class is read as it is written. -/
theorem CharClass.reads_spell {cls : CharClass} (h : cls.Valid) (t : Text) :
    Token.Reads (.atom (.charClass cls)) cls.spell t := by
  rcases cls with ⟨members, _ | _⟩ | _
  · obtain ⟨hbracket, hcaret⟩ := h
    refine Token.reads_cons ?_
    have hhead : (members ++ ']' :: t).head? ≠ some '^' := by
      rw [Ne, head?_append_eq_some_iff (by simp)]
      exact hcaret rfl
    rw [List.append_assoc, List.singleton_append, Token.readGlyph, read_of_head?_ne hhead,
      readMembers_append_bracket hbracket, List.length_append, List.length_singleton]
  · refine Token.reads_cons ?_
    rw [List.cons_append, List.append_assoc, List.singleton_append, Token.readGlyph, read,
      readMembers_append_bracket h.1, List.length_cons, List.length_append, List.length_singleton]
  · exact h.elim

/-- Counts are read up to the brace behind them. -/
theorem Bound.exists_read_spell {b : Bound} (h : b.Valid) (t : Text) :
    ∃ k, Quantifier.Counts.read (b.spell ++ '}' :: t) = k ∧ k.least ≠ [] ∧ k.bound = b ∧
      k.width = b.spell.length := by
  cases b with
  | exactly count =>
    refine ⟨⟨count, false, []⟩, ?_, h.1, rfl, rfl⟩
    have hdrop : (count ++ '}' :: t).dropWhile Char.isDigit = '}' :: t :=
      dropWhile_append_cons h.2 rfl
    rw [spell, Quantifier.Counts.read_of_head?_ne (by simp [hdrop]),
      takeWhile_append_cons h.2 rfl]
  | atLeast least =>
    refine ⟨⟨least, true, []⟩, ?_, h.1, rfl, by simp [spell, Quantifier.Counts.width]⟩
    rw [spell, List.append_assoc, List.singleton_append,
      Quantifier.Counts.read_of_comma (dropWhile_append_cons h.2 rfl),
      takeWhile_append_cons h.2 rfl]
    rfl
  | between least most =>
    obtain ⟨⟨hleast, hleast'⟩, hmost, hmost'⟩ := h
    refine ⟨⟨least, true, most⟩, ?_, hleast, by simp [Quantifier.Counts.bound, hmost], ?_⟩
    · rw [spell, List.append_assoc, List.cons_append,
        Quantifier.Counts.read_of_comma (dropWhile_append_cons hleast' rfl),
        takeWhile_append_cons hleast' rfl, takeWhile_append_cons hmost' rfl]
    · simp only [spell, Quantifier.Counts.width, Bool.toNat_true, List.length_append,
        List.length_cons]
      omega

/-- Bounds with a brace behind them are read as they are written. -/
theorem Quantifier.read_spell_append {b : Bound} (h : b.Valid) (rest : Text) :
    read (b.spell ++ '}' :: rest) = (bounded b (rest.head? == some '?'),
      b.spell.length + 1 + (rest.head? == some '?').toNat) := by
  obtain ⟨k, hk, hleast, rfl, hwidth⟩ := Bound.exists_read_spell h rest
  have hdrop : (k.bound.spell ++ '}' :: rest).drop k.width = '}' :: rest :=
    List.drop_left' hwidth.symm
  simp only [read, hk, hdrop]
  rw [if_pos ⟨hleast, rfl⟩, hwidth, List.tail_cons]

/-- A quantifier in braces is read as it is written. -/
theorem Quantifier.reads_spell {q : Quantifier} (h : q.Valid)
    (ht : (Atom.quantifier q).isGreedy = true → t.head? ≠ some '?') :
    Token.Reads (.atom (.quantifier q)) q.spell t := by
  cases q with
  | unterminated => exact h.elim
  | bounded b lazy =>
    refine Token.reads_cons ?_
    rw [List.append_assoc, List.cons_append, Token.readGlyph]
    generalize hrest : (if lazy = true then ['?'] else []) ++ t = rest
    have hlazy : (rest.head? == some '?') = lazy := by
      rw [← hrest]
      cases lazy with
      | true => rfl
      | false => simpa [Atom.isGreedy] using ht
    rw [read_spell_append h, hlazy]
    cases lazy <;> simp

namespace Atom

theorem isGreedy_special {s : Special} (h : s.isGreedy = true) :
    (special s.describe).isGreedy = true := by
  cases s with
  | repetition r lazy =>
    cases lazy with
    | true => cases h
    | false => cases r <;> decide
  | _ => cases h

/-- An atom is read as it is written. -/
theorem reads_spell {a : Atom} (h : a.Valid) (ht : a.isGreedy = true → t.head? ≠ some '?') :
    Token.Reads (.atom a) a.spell t := by
  cases a with
  | literal text =>
    rcases h with rfl | ⟨c, hc, rfl⟩
    · exact Token.reads_escape .space (u := [' ']) rfl
    · rw [spell_literal_singleton]
      exact Token.reads_quote hc
  | special text =>
    obtain ⟨s, hs, rfl⟩ := h
    obtain ⟨s', hvalid, hdescribe, hspell⟩ := exists_spell_special hs
    rw [hspell, ← hdescribe]
    rw [← hdescribe] at ht
    exact Special.reads_spell hvalid fun hgreedy => ht (isGreedy_special hgreedy)
  | charClass cls => exact CharClass.reads_spell h t
  | quantifier bounds => exact Quantifier.reads_spell h ht

end Atom

/-! ## Openers -/

/-- What an opener is read from is read as its token, behind a parenthesis. -/
theorem Token.reads_opener {o : Opener} {u : Text} (h : Opener.read? ('?' :: (u ++ t)) = some o)
    (hreach : o.reach = u.length + 1) : Reads o.token ('(' :: '?' :: u) t := by
  refine reads_cons ?_
  rw [List.cons_append, readGlyph, readOpening_question, h, Option.map_some, Option.getD_some,
    hreach, List.length_cons]

/-- The parenthesis of a plain group is read by itself. -/
theorem Token.reads_parenthesis (h : t.head? ≠ some '?') : Reads .openPlain ['('] t :=
  reads_cons (readOpening_of_head?_ne h)

namespace Setting

theorem settings_letters {list : List Setting} {enabled : Bool}
    (h : ∀ s ∈ list, s.enabled = enabled) (t : Text) :
    Opener.settings enabled (list.map (·.flag.letter) ++ t) =
      list ++ Opener.settings enabled t := by
  induction list with
  | nil => rfl
  | cons s list ih =>
    obtain ⟨flag, on⟩ := s
    obtain rfl : on = enabled := h _ List.mem_cons_self
    rw [List.map_cons, List.cons_append, Opener.settings, Flag.ofLetter?_letter,
      ih fun s hs => h s (List.mem_cons_of_mem _ hs), List.cons_append]

theorem isSettingGlyph_letter (f : Flag) : Opener.isSettingGlyph f.letter = true := by
  cases f <;> rfl

theorem isSettingGlyph_of_mem_spellAll {list : List Setting} {c : Char} (h : c ∈ spellAll list) :
    Opener.isSettingGlyph c = true := by
  have hletter (ss : List Setting) (hc : c ∈ ss.map (·.flag.letter)) :
      Opener.isSettingGlyph c = true := by
    obtain ⟨s, -, rfl⟩ := List.mem_map.1 hc
    exact isSettingGlyph_letter s.flag
  unfold spellAll at h
  rcases List.mem_append.1 h with h | h
  · exact hletter _ h
  · split at h
    · cases h
    · rcases List.mem_cons.1 h with rfl | h
      · rfl
      · exact hletter _ h

/-- Settings are read from their letters. -/
theorem settings_spellAll {list : List Setting} (h : ValidAll list) :
    Opener.settings true (spellAll list) = list := by
  have hon : ∀ s ∈ list.takeWhile (·.enabled), s.enabled = true :=
    List.all_eq_true.1 List.all_takeWhile
  have hsplit := List.takeWhile_append_dropWhile (p := (·.enabled)) (l := list)
  rw [spellAll, settings_letters hon]
  cases hoff : list.dropWhile (·.enabled) with
  | nil =>
    rw [hoff] at hsplit
    exact hsplit
  | cons s off =>
    -- behind the hyphen everything is switched off
    have hletters := settings_letters (hoff ▸ h.2) []
    rw [List.append_nil, Opener.settings, List.append_nil] at hletters
    rw [hoff] at hsplit
    show _ ++ Opener.settings false ((s :: off).map (·.flag.letter)) = list
    rw [hletters, hsplit]

/-- The settings of a group are read up to what ends them. -/
theorem settings?_spellAll {list : List Setting} (h : ValidAll list) {width : Nat}
    {hasBody : Bool} (hend : Opener.settingsEnd? t = some (width, hasBody)) :
    Opener.settings? ('?' :: (spellAll list ++ t)) =
      some ⟨.settings list, 1 + (spellAll list).length + width, hasBody⟩ := by
  obtain ⟨c, u, rfl, hc⟩ : ∃ c u, t = c :: u ∧ Opener.isSettingGlyph c = false := by
    unfold Opener.settingsEnd? at hend
    split at hend
    · exact ⟨_, _, rfl, rfl⟩
    · exact ⟨_, _, rfl, rfl⟩
    · exact ⟨_, _, rfl, rfl⟩
    · cases hend
  have hglyphs : ∀ a ∈ spellAll list, Opener.isSettingGlyph a = true :=
    fun a ha => isSettingGlyph_of_mem_spellAll ha
  have hlist := settings_spellAll h
  have hread := Opener.settings?_append_cons hglyphs (by rw [hlist]; exact h.1) hc hend
  rwa [hlist] at hread

end Setting

namespace GroupKind

/-- The opener of a group is read behind its parenthesis. Settings before a closing parenthesis
would not have a body. -/
theorem reads_opener {kind : GroupKind} (h : kind.Valid) (hcapture : kind ≠ .capture)
    (hconditional : kind ≠ .conditional)
    (hsettings : ∀ list, kind = .settings list → t.head? ≠ some ')') :
    Token.Reads (.openGroup kind) ('(' :: kind.opener) t := by
  cases kind with
  | capture => exact absurd rfl hcapture
  | conditional => exact absurd rfl hconditional
  | nonCapturing =>
    exact Token.reads_opener (o := ⟨.nonCapturing, 2, true⟩) (u := [':'])
      ((Opener.read?_eq_some_iff _ _).2 ⟨.nonCapturing, rfl⟩) rfl
  | nonBacktracking =>
    exact Token.reads_opener (o := ⟨.nonBacktracking, 2, true⟩) (u := ['>'])
      ((Opener.read?_eq_some_iff _ _).2 ⟨.nonBacktracking, rfl⟩) rfl
  | lookaround direction negated =>
    have hread : Opener.read? ('?' :: (direction.signs negated ++ t)) =
        some ⟨.lookaround direction negated, (direction.signs negated).length + 1, true⟩ := by
      refine (Opener.read?_eq_some_iff _ _).2 ⟨.lookaround, ?_⟩
      cases direction <;> cases negated <;> rfl
    exact Token.reads_opener hread rfl
  | named name =>
    have hread : Opener.read? ('?' :: ('<' :: (name ++ ['>']) ++ t)) =
        some ⟨.named name, name.length + 3, true⟩ := by
      refine (Opener.read?_eq_some_iff _ _).2 ⟨.named, (Opener.named?_eq_some_iff _ _).2
        ⟨'>', name ++ '>' :: t, by simp [Opener.quoted?], name, t, ?_, rfl⟩⟩
      exact h.wordUpTo?_eq rfl t
    exact Token.reads_opener hread (by simp [Opener.reach])
  | balancing first second =>
    have hread : Opener.read? ('?' :: ('<' :: (first ++ '-' :: (second ++ ['>'])) ++ t)) =
        some ⟨.balancing first second, first.length + second.length + 4, true⟩ := by
      refine (Opener.read?_eq_some_iff _ _).2 ⟨.balancing, (Opener.balancing?_eq_some_iff _ _).2
        ⟨'>', first ++ '-' :: (second ++ '>' :: t), by simp [Opener.quoted?], first,
          second ++ '>' :: t, h.1.wordUpTo?_eq rfl _, second, t, h.2.wordUpTo?_eq rfl t, rfl⟩⟩
    exact Token.reads_opener hread (by simp [Opener.reach]; omega)
  | settings list =>
    have hread : Opener.read? ('?' :: (Setting.spellAll list ++ [':'] ++ t)) =
        some ⟨.settings list, 1 + (Setting.spellAll list).length + 1, true⟩ := by
      refine (Opener.read?_eq_some_iff _ _).2 ⟨.settings, ?_⟩
      rw [List.append_assoc]
      exact Setting.settings?_spellAll h (Opener.settingsEnd?_colon (hsettings list rfl))
    exact Token.reads_opener hread (by simp [Opener.reach]; omega)

/-- A group without a body is read whole. -/
theorem reads_bare {list : List Setting} (h : Setting.ValidAll list) (t : Text) :
    Token.Reads (.bareGroup (.settings list)) ('(' :: ((settings list).bareOpener ++ [')'])) t := by
  have hread : Opener.read? ('?' :: (Setting.spellAll list ++ [')'] ++ t)) =
      some ⟨.settings list, 1 + (Setting.spellAll list).length + 1, false⟩ := by
    refine (Opener.read?_eq_some_iff _ _).2 ⟨.settings, ?_⟩
    rw [List.append_assoc]
    exact Setting.settings?_spellAll h rfl
  exact Token.reads_opener hread (by simp [Opener.reach]; omega)

/-- The parenthesis of a conditional is read together with that of its condition. -/
theorem reads_condition (t : Text) : Token.Reads .openCondition ['(', '?', '('] t :=
  Token.reads_opener (o := ⟨.conditional, 1, true⟩) (u := ['('])
    ((Opener.read?_eq_some_iff _ _).2 ⟨.conditional, rfl⟩) rfl

end GroupKind

end RegexGloss
