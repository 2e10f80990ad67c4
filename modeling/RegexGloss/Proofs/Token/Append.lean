import RegexGloss.Proofs.Opener.Forms
import RegexGloss.Proofs.Token.Glyphs

/-!
# Text put behind tokens

Where a text goes on with a bar or a closing parenthesis, most tokens before it do not change:
names, counts and escapes do not take these glyphs in. The exceptions are tokens that nothing has
ended, such as a class without a bracket or a comment without a line end. `Token.Settled` rules them
out, and then the tokens of both parts together are those of the first part followed by those of
the second one (`Lexeme.lex_append`).
-/

namespace RegexGloss

namespace Text

/-- A text starts with a bar or a closing parenthesis. -/
def Stops (v : Text) : Prop := v.head? = some '|' ∨ v.head? = some ')'

namespace Stops

variable {v : Text}

theorem head?_ne (hv : v.Stops) {c : Char} (hbar : c ≠ '|') (hclose : c ≠ ')') :
    v.head? ≠ some c := by
  rcases hv with h | h <;> rw [h] <;> intro heq
  · exact hbar (Option.some.inj heq).symm
  · exact hclose (Option.some.inj heq).symm

/-- Glyphs among which there is no bar and no parenthesis end before these. -/
theorem exists_append (hv : v.Stops) {u w rest : Text} (h : u ++ v = w ++ rest)
    (hbar : '|' ∉ w) (hclose : ')' ∉ w) : ∃ w', u = w ++ w' ∧ w' ++ v = rest := by
  rcases List.append_eq_append_iff.1 h with ⟨w', rfl, hrest⟩ | ⟨w', rfl, rfl⟩
  · cases w' with
    | nil => exact ⟨[], by simp, hrest⟩
    | cons c w' =>
      rw [Stops, hrest, List.cons_append, List.head?_cons, Option.some.injEq,
        Option.some.injEq] at hv
      rcases hv with rfl | rfl
      · exact absurd (by simp) hbar
      · exact absurd (by simp) hclose
  · exact ⟨w', rfl, rfl⟩

end Stops

theorem takeWhile_append_of_head? {p : Char → Bool} {u v : Text}
    (hv : ∀ c ∈ v.head?, p c = false) : (u ++ v).takeWhile p = u.takeWhile p := by
  cases v with
  | nil => rw [List.append_nil]
  | cons c v =>
    have hc : ¬p c = true := by simp [hv c rfl]
    rw [List.takeWhile_append, List.takeWhile_cons_of_neg hc, List.append_nil]
    split
    · rename_i hlength
      exact ((List.takeWhile_prefix p).eq_of_length hlength).symm
    · rfl

theorem dropWhile_append_of_head? {p : Char → Bool} {u v : Text}
    (hv : ∀ c ∈ v.head?, p c = false) : (u ++ v).dropWhile p = u.dropWhile p ++ v := by
  refine (List.append_right_inj ((u ++ v).takeWhile p)).1 ?_
  rw [List.takeWhile_append_dropWhile, takeWhile_append_of_head? hv, ← List.append_assoc,
    List.takeWhile_append_dropWhile]

end Text

open Text

variable {u v : Text}

/-! ## Classes and quantifiers -/

/-- A class that a bracket ends stays the same. -/
theorem CharClass.readMembers_append {negated : Bool}
    (h : (readMembers negated u).1 ≠ .unterminated) (v : Text) :
    readMembers negated (u ++ v) = readMembers negated u := by
  have hlt : (u.takeWhile (· != ']')).length < u.length := by
    by_contra hle
    exact h (by simp only [readMembers, if_neg hle])
  have htake : (u ++ v).takeWhile (· != ']') = u.takeWhile (· != ']') := by
    rw [List.takeWhile_append, if_neg (by omega)]
  simp only [readMembers, htake, if_pos hlt, List.length_append]
  rw [if_pos (by omega)]

theorem CharClass.read_append (h : (read u).1 ≠ .unterminated) (v : Text) :
    read (u ++ v) = read u := by
  cases u with
  | nil => exact absurd rfl h
  | cons c u =>
    by_cases hc : c = '^'
    · subst hc
      replace h : (readMembers true u).1 ≠ .unterminated := h
      rw [List.cons_append, read, read, readMembers_append h]
    · rw [read_of_head?_ne (by simpa using hc)] at h
      rw [List.cons_append, read_of_head?_ne (by simpa using hc),
        read_of_head?_ne (by simpa using hc), ← List.cons_append, readMembers_append h]

namespace Quantifier

/-- Counts stay the same, because no digit and no comma follows them. -/
theorem Counts.read_append (hv : v.Stops) : read (u ++ v) = read u := by
  have hdigit : ∀ c ∈ v.head?, c.isDigit = false := by
    rintro c hc
    rcases hv with h | h <;> rw [h] at hc <;> cases hc <;> rfl
  have htake {w : Text} : (w ++ v).takeWhile Char.isDigit = w.takeWhile Char.isDigit :=
    takeWhile_append_of_head? hdigit
  have hdrop := dropWhile_append_of_head? (u := u) hdigit
  by_cases hcomma : (u.dropWhile Char.isDigit).head? = some ','
  · obtain ⟨w, hw⟩ := List.head?_eq_some_iff.1 hcomma
    rw [hw, List.cons_append] at hdrop
    rw [read_of_comma hdrop, read_of_comma hw, htake, htake]
  · rw [read_of_head?_ne hcomma, read_of_head?_ne, htake]
    rwa [hdrop, Ne, head?_append_eq_some_iff (hv.head?_ne (by decide) (by decide))]

/-- The glyphs up to a stray brace stay the same if a parenthesis is closed behind them. -/
theorem strayWidth_append (h : ')' ∈ u ∨ v.head? = some ')') :
    strayWidth (u ++ v) = strayWidth u := by
  induction u with
  | nil =>
    obtain ⟨w, rfl⟩ := List.head?_eq_some_iff.1 (h.resolve_left (by simp))
    rfl
  | cons c u ih =>
    rw [List.cons_append, strayWidth_cons, strayWidth_cons]
    by_cases hc : c = ')'
    · rw [if_pos hc, if_pos hc]
    · rw [ih (h.imp_left fun hmem => (List.mem_cons.1 hmem).resolve_left (Ne.symm hc))]

/-- A quantifier stays the same. If it is malformed, a parenthesis has to be closed behind it,
because it would go on to a stray brace. -/
theorem read_append (hv : v.Stops)
    (h : (read u).1 = .unterminated → ')' ∈ u.drop (read u).2 ∨ v.head? = some ')') :
    read (u ++ v) = read u := by
  have hdrop : (u ++ v).drop (Counts.read u).width = u.drop (Counts.read u).width ++ v :=
    List.drop_append_of_le_length (Counts.width_read_le u)
  dsimp only [read] at h ⊢
  rw [Counts.read_append hv, hdrop]
  generalize Counts.read u = counts at h ⊢
  generalize hrest : u.drop counts.width = rest at h ⊢
  have hbrace : (rest ++ v).head? = some '\x7d' ↔ rest.head? = some '\x7d' :=
    head?_append_eq_some_iff (hv.head?_ne (by decide) (by decide))
  by_cases hclosed : counts.least ≠ [] ∧ rest.head? = some '\x7d'
  · rw [if_pos hclosed, if_pos (by rwa [hbrace])]
    obtain ⟨w, rfl⟩ := List.head?_eq_some_iff.1 hclosed.2
    -- what follows the brace makes it lazy or not, and nothing that is put behind does
    have hlazy : ((w ++ v).head? == some '?') = (w.head? == some '?') := by
      rw [Bool.eq_iff_iff, beq_iff_eq, beq_iff_eq]
      exact head?_append_eq_some_iff (hv.head?_ne (by decide) (by decide))
    rw [List.cons_append, List.tail_cons, List.tail_cons, hlazy]
  · rw [if_neg hclosed] at h ⊢
    rw [if_neg (by rwa [hbrace]), strayWidth_append]
    refine (h rfl).imp_left fun hmem => ?_
    rw [← List.drop_drop, hrest] at hmem
    exact List.mem_of_mem_drop hmem

end Quantifier

/-! ## Escapes -/

namespace Escape

variable {escape : Escape} {width : Nat}

theorem take?_append {count : Nat} {taken : Text} (h : take? count u = some taken) (v : Text) :
    take? count (u ++ v) = some taken := by
  have hle := length_le_of_take?_eq_some h
  rwa [take?, List.take_append_of_le_length hle]

/-- An escape that is no backreference is the same whatever follows. -/
theorem readGlyph?_append {c : Char} (h : readGlyph? c u = some (escape, width)) (v : Text) :
    readGlyph? c (u ++ v) = some (escape, width) := by
  unfold readGlyph? at h
  split at h
  · cases h
  · exact h
  · obtain ⟨digits, hdigits, he⟩ := Option.map_eq_some_iff.1 h
    rw [readGlyph?, take?_append hdigits v, Option.map_some, he]
  · obtain ⟨digits, hdigits, he⟩ := Option.map_eq_some_iff.1 h
    rw [readGlyph?, take?_append hdigits v, Option.map_some, he]
  · exact h
  -- any other escape is one glyph, so only that glyph matters
  · rename_i hnil hcons
    have hc : c ≠ 'c' := by
      intro hc
      cases u with
      | nil => exact hnil hc rfl
      | cons d w => exact hcons d w hc rfl
    unfold readGlyph?
    split <;> simp_all

/-- No backreference is completed by a bar or a closing parenthesis. -/
theorem backreference?_append (hv : v.Stops) : backreference? (u ++ v) = backreference? u := by
  cases hu : backreference? u with
  | some r => exact backreference?_append_right hu v
  | none =>
    cases huv : backreference? (u ++ v) with
    | none => rfl
    | some r =>
      obtain ⟨w, hw, name, rest, hname, rfl⟩ := (backreference?_eq_some_iff _ _).1 huv
      obtain ⟨hne, hall, rfl⟩ := (Opener.wordUpTo?_eq_some_iff rfl _ _ _).1 hname
      -- its glyphs are all in the first part, which therefore has a backreference itself
      have hout {c : Char} (hc : isWord c = false) (hname : c ∉ ['k', '<', '>']) :
          c ∉ 'k' :: '<' :: (name ++ ['>']) := by
        intro hmem
        have hword : c ∉ name := fun hmem => by simp [hall c hmem] at hc
        simp_all
      have hsplit : u ++ v = 'k' :: '<' :: (name ++ ['>']) ++ rest := by simpa using hw
      obtain ⟨w', rfl, -⟩ := hv.exists_append hsplit (hout (by decide) (by decide))
        (hout (by decide) (by decide))
      have hread : backreference? ('k' :: '<' :: (name ++ ['>']) ++ w') =
          some (name, name.length + 3) :=
        (backreference?_eq_some_iff _ _).2 ⟨name ++ '>' :: w', by simp, name, w',
          (Opener.wordUpTo?_eq_some_iff rfl _ _ _).2 ⟨hne, hall, rfl⟩, rfl⟩
      rw [hu] at hread
      cases hread

/-- An escape stays the same. -/
theorem read?_append (hv : v.Stops) (h : read? u = some (escape, width)) :
    read? (u ++ v) = some (escape, width) := by
  unfold read? at h ⊢
  rw [backreference?_append hv]
  split at h
  · exact h
  · split at h
    · cases h
    · exact readGlyph?_append h v

end Escape

/-! ## Tokens -/

/-- An opener before a body opens a group, unless it is that of a conditional. -/
theorem Opener.token_of_hasBody {o : Opener} (hbody : o.hasBody = true)
    (hkind : o.kind ≠ .conditional) : o.token = .openGroup o.kind := by
  obtain ⟨kind, width, hasBody⟩ := o
  obtain rfl : hasBody = true := hbody
  cases kind with
  | conditional => exact absurd rfl hkind
  | _ => rfl

namespace Token

theorem readRepeat_append (hv : v.Stops) (description : Text) :
    readRepeat description (u ++ v) = readRepeat description u := by
  cases u with
  | nil =>
    rw [List.nil_append, readRepeat_of_head?_ne (hv.head?_ne (by decide) (by decide)),
      readRepeat_of_head?_ne (by simp)]
  | cons c u =>
    by_cases hc : c = '?'
    · subst hc
      rfl
    · rw [readRepeat_of_head?_ne (by simpa using hc), readRepeat_of_head?_ne (by simpa using hc)]

/-- What an opening parenthesis starts stays the same, unless it starts settings for a group, which
the other text could close right behind their glyphs. -/
theorem readOpening_append (hv : v.Stops) (hfault : (readOpening u).1 ≠ .unknownGroup)
    (hsettings : ∀ list, (readOpening u).1 = .openGroup (.settings list) →
      u.drop (readOpening u).2 ≠ []) :
    readOpening (u ++ v) = readOpening u := by
  have hquestion : (u ++ v).head? = some '?' ↔ u.head? = some '?' :=
    head?_append_eq_some_iff (hv.head?_ne (by decide) (by decide))
  by_cases hq : u.head? = some '?'
  · obtain ⟨w, rfl⟩ := List.head?_eq_some_iff.1 hq
    rw [readOpening_question] at hfault hsettings
    cases ho : Opener.read? ('?' :: w) with
    | none =>
      rw [ho] at hfault
      exact absurd rfl hfault
    | some o =>
      rw [ho] at hsettings
      have happend : Opener.read? ('?' :: w ++ v) = some o := by
        refine Opener.read?_append ho fun _ hbody list hkind => ?_
        have hconditional : o.kind ≠ .conditional := by
          rw [hkind]
          exact nofun
        have htoken : o.token = .openGroup (.settings list) := by
          rw [Opener.token_of_hasBody hbody hconditional, hkind]
        have hrest := hsettings list htoken
        rw [Option.map_some, Option.getD_some, Opener.reach, if_neg hconditional] at hrest
        simpa using hrest
      rw [List.cons_append] at happend ⊢
      rw [readOpening_question, readOpening_question, ho, happend]
  · rw [readOpening_of_head?_ne hq, readOpening_of_head?_ne (by rwa [Ne, hquestion])]

/-- A token is ended by its own glyphs or by what follows it. Behind a comment and behind the
settings of a group more has to follow, and behind a malformed quantifier a parenthesis has to be
closed. A class without a bracket and faults are never ended. -/
def Settled (more closed : Prop) : Token → Prop
  | truncatedEscape | unknownGroup | atom (.charClass .unterminated) => False
  | comment | openGroup (.settings _) => more
  | atom (.quantifier .unterminated) => closed
  | _ => True

theorem Settled.mono {more closed more' closed' : Prop} {token : Token}
    (h : token.Settled more closed) (hmore : more → more') (hclosed : closed → closed') :
    token.Settled more' closed' := by
  unfold Settled at h ⊢
  split
  · exact h
  · exact h
  · exact h
  · exact hmore h
  · exact hmore h
  · exact hclosed h
  · trivial

/-- A token that is no fault and no class without a bracket is settled, if what it needs follows. -/
theorem settled_of_isFault {more closed : Prop} {token : Token} (hfault : token.isFault = false)
    (hclass : token ≠ .atom (.charClass .unterminated)) (hcomment : token = .comment → more)
    (hsettings : ∀ list, token = .openGroup (.settings list) → more)
    (hquantifier : token = .atom (.quantifier .unterminated) → closed) :
    token.Settled more closed := by
  unfold Settled
  split
  · cases hfault
  · cases hfault
  · exact hclass rfl
  · exact hcomment rfl
  · exact hsettings _ rfl
  · exact hquantifier rfl
  · trivial

/-- A token that is settled stays the same where a bar or a closing parenthesis follows. -/
theorem readGlyph_append {c : Char} (hv : v.Stops)
    (h : (readGlyph c u).1.Settled (u.drop (readGlyph c u).2 ≠ [])
      (')' ∈ u.drop (readGlyph c u).2 ∨ v.head? = some ')')) :
    readGlyph c (u ++ v) = readGlyph c u := by
  unfold readGlyph at h
  split at h
  · refine readOpening_append hv (fun hfault => ?_) (fun list hsettings => ?_)
    · rw [hfault] at h
      exact h
    · rw [hsettings] at h
      exact h
  · rfl
  · have hclass : (CharClass.read u).1 ≠ .unterminated := by
      intro hclass
      rw [hclass] at h
      exact h
    simp only [readGlyph, CharClass.read_append hclass]
  · cases he : Escape.read? u with
    | none =>
      rw [he] at h
      exact h.elim
    | some r => simp only [readGlyph, he, Escape.read?_append hv he]
  · have hquantifier : (Quantifier.read u).1 = .unterminated →
        ')' ∈ u.drop (Quantifier.read u).2 ∨ v.head? = some ')' := by
      intro hquantifier
      rw [hquantifier] at h
      exact h
    simp only [readGlyph, Quantifier.read_append hv hquantifier]
  iterate 5 rfl
  iterate 3 exact readRepeat_append hv _
  · -- any other glyph is a literal by itself
    unfold readGlyph
    split <;> simp_all

/-- A token that is settled stays the same where a bar or a closing parenthesis follows. -/
theorem read_append {skipping : Bool} {c : Char} (hv : v.Stops)
    (h : (read skipping c u).1.Settled (u.drop (read skipping c u).2 ≠ [])
      (')' ∈ u.drop (read skipping c u).2 ∨ v.head? = some ')')) :
    read skipping c (u ++ v) = read skipping c u := by
  by_cases hblank : (skipping && isSkipped c) = true
  · rw [read, read, if_pos hblank, if_pos hblank]
  by_cases hcomment : (skipping && c == '#') = true
  · rw [read, if_neg hblank, if_pos hcomment] at h
    -- the comment ends before the first part does
    have hlt : (u.takeWhile fun c => !endsComment c).length ≠ u.length := by
      intro hlength
      exact h (by rw [hlength, List.drop_length])
    rw [read, read, if_neg hblank, if_neg hblank, if_pos hcomment, if_pos hcomment,
      List.takeWhile_append, if_neg hlt]
  · rw [read, if_neg hblank, if_neg hcomment] at h
    rw [read, read, if_neg hblank, if_neg hblank, if_neg hcomment, if_neg hcomment]
    exact readGlyph_append hv h

end Token

/-! ## All tokens -/

namespace Lexeme

/-- Each of the first tokens is settled by the tokens after it, `after` included, and the text
behind these. -/
def SettledAll (v : Text) (after before : List Lexeme) : Prop :=
  ∀ first l rest, before = first ++ l :: rest →
    l.token.Settled (rest ++ after ≠ [])
      ((∃ m ∈ rest ++ after, m.token = .close) ∨ v.head? = some ')')

/-- The first tokens of a text stay the same where a bar or a closing parenthesis follows, if they
are settled. -/
theorem lex_append_of_settledAll {skipping : Bool} {t : Text} {before after : List Lexeme}
    (hv : v.Stops) (hlex : lex skipping t = before ++ after) (h : SettledAll v after before) :
    lex skipping (t ++ v) =
      before ++ lex skipping (t.drop (before.map width).sum ++ v) := by
  induction before generalizing t with
  | nil => simp
  | cons l before ih =>
    cases t with
    | nil => cases hlex
    | cons c t =>
      rw [lex_cons, List.cons_append] at hlex
      obtain ⟨rfl, hrest⟩ := List.cons.inj hlex
      have hread : Token.read skipping c (t ++ v) = Token.read skipping c t := by
        refine Token.read_append hv ((h [] _ _ rfl).mono ?_ ?_)
        · intro hafter hnil
          rw [hnil] at hrest
          exact hafter hrest.symm
        · rw [← hrest]
          exact Or.imp_left fun ⟨m, hm, hclose⟩ => mem_of_firstGlyph? hm (by rw [hclose]; rfl)
      have hbefore : SettledAll v after before := fun first l rest hsplit =>
        h (_ :: first) l rest (by rw [hsplit, List.cons_append])
      rw [List.cons_append, lex_cons, hread,
        List.drop_append_of_le_length (Token.read_snd_le skipping c t), ih hrest hbefore,
        List.drop_drop, List.map_cons, List.sum_cons, Nat.add_right_comm, List.drop_succ_cons,
        List.cons_append]

/-- The tokens of a text whose tokens are settled stay the same where a bar or a closing
parenthesis follows. -/
theorem lex_append {skipping : Bool} {t : Text} (hv : v.Stops)
    (h : SettledAll v [] (lex skipping t)) :
    lex skipping (t ++ v) = lex skipping t ++ lex skipping v := by
  rw [lex_append_of_settledAll hv (List.append_nil _).symm h, sum_width_lex, List.drop_length,
    List.nil_append]

end Lexeme

end RegexGloss
