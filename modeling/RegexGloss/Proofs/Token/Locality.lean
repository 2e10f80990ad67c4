import RegexGloss.Proofs.Opener.Locality
import RegexGloss.Token.Width

/-!
# Tokens do not depend on what follows them

Some readers look at glyphs that they do not take up: at a `?` that would make a repetition lazy,
at a `}` that would close a malformed quantifier, at the end of a name. If nothing comes of it, the
result is the same as at the end of the pattern. So a token is read the same from a text that is cut
off anywhere behind it (`Token.read_of_append`), and a stretch of a pattern between two tokens has
the same tokens by itself (`Lexeme.lex_slice`). Tokens that are faults are left out.
-/

namespace RegexGloss

open Text

/-! ## Classes and quantifiers -/

namespace CharClass

variable {u v : Text}

theorem readMembers_of_append {negated : Bool}
    (h : (readMembers negated (u ++ v)).2 ≤ u.length) :
    readMembers negated u = readMembers negated (u ++ v) := by
  simp only [readMembers] at h ⊢
  split at h
  · rename_i hlt
    have htake := takeWhile_of_append (u := u) (v := v) (p := (· != ']')) (by omega)
    rw [htake, if_pos hlt, if_pos (by omega)]
  · -- a class that no bracket ends takes up everything, so nothing is cut off
    rw [List.length_append] at h
    obtain rfl : v = [] := List.eq_nil_of_length_eq_zero (by omega)
    rw [List.append_nil]

theorem read_of_head?_ne {t : Text} (h : t.head? ≠ some '^') : read t = readMembers false t := by
  unfold read
  split
  · exact absurd rfl h
  · rfl

/-- A class is the same where the text is cut off behind it. -/
theorem read_of_append (h : (read (u ++ v)).2 ≤ u.length) : read u = read (u ++ v) := by
  cases u with
  | nil =>
    cases v with
    | nil => rfl
    | cons c v =>
      -- a `^` would be taken up, and nothing can be here
      by_cases hc : c = '^'
      · subst hc
        exact absurd h (Nat.not_succ_le_zero _)
      · rw [List.nil_append, read_of_head?_ne (by simp [hc])] at h
        rw [List.nil_append, read_of_head?_ne (t := c :: v) (by simp [hc])]
        exact readMembers_of_append (u := []) h
  | cons c u =>
    by_cases hc : c = '^'
    · subst hc
      have hmembers : readMembers true u = readMembers true (u ++ v) :=
        readMembers_of_append (Nat.le_of_succ_le_succ h)
      rw [List.cons_append, read, read, hmembers]
    · rw [List.cons_append, read_of_head?_ne (by simp [hc])] at h
      rw [List.cons_append, read_of_head?_ne (by simp [hc]), read_of_head?_ne (by simp [hc])]
      exact readMembers_of_append (u := c :: u) h

end CharClass

namespace Quantifier

variable {u v : Text}

namespace Counts

theorem read_of_comma {t rest : Text} (h : t.dropWhile Char.isDigit = ',' :: rest) :
    read t = ⟨t.takeWhile Char.isDigit, true, rest.takeWhile Char.isDigit⟩ := by
  simp only [read, h]

theorem read_of_head?_ne {t : Text} (h : (t.dropWhile Char.isDigit).head? ≠ some ',') :
    read t = ⟨t.takeWhile Char.isDigit, false, []⟩ := by
  unfold read
  split
  · rename_i hd
    rw [hd] at h
    exact absurd rfl h
  · rfl

theorem length_takeWhile_le_width (t : Text) :
    (t.takeWhile Char.isDigit).length ≤ (read t).width := by
  unfold read
  split <;> simp only [width] <;> omega

/-- Counts are the same where the text is cut off behind them. -/
theorem read_of_append (h : (read (u ++ v)).width ≤ u.length) : read u = read (u ++ v) := by
  have hle := Nat.le_trans (length_takeWhile_le_width (u ++ v)) h
  have htake := takeWhile_of_append hle
  have hdrop := dropWhile_of_append hle
  have hlength := congrArg List.length
    (List.takeWhile_append_dropWhile (p := Char.isDigit) (l := u))
  rw [List.length_append, htake] at hlength
  cases hd : u.dropWhile Char.isDigit with
  | nil =>
    rw [hd, List.nil_append] at hdrop
    rw [hd, List.length_nil] at hlength
    -- a comma would be a glyph more than there are
    have hcomma : v.head? ≠ some ',' := by
      intro hv
      obtain ⟨w, rfl⟩ := List.head?_eq_some_iff.1 hv
      rw [read_of_comma hdrop, width] at h
      simp only [Bool.toNat_true] at h
      omega
    rw [read_of_head?_ne (by simp [hd]), read_of_head?_ne (by rwa [hdrop]), htake]
  | cons c d =>
    rw [hd, List.cons_append] at hdrop
    rw [hd, List.length_cons] at hlength
    -- the digits end before the cut, with or without a comma behind them
    by_cases hc : c = ','
    · subst hc
      rw [read_of_comma hdrop, width] at h
      simp only [Bool.toNat_true] at h
      rw [read_of_comma hdrop, read_of_comma hd, htake,
        takeWhile_of_append (u := d) (v := v) (by omega)]
    · rw [read_of_head?_ne (by simpa [hd] using hc), read_of_head?_ne (by simpa [hdrop] using hc),
        htake]

end Counts

theorem strayWidth_cons (c : Char) (t : Text) :
    strayWidth (c :: t) =
      if c = ')' then 0 else if c = '\x7d' then 1 else
        if strayWidth t = 0 then 0 else strayWidth t + 1 := by
  by_cases hclose : c = ')'
  · subst hclose
    rfl
  · by_cases hbrace : c = '\x7d'
    · subst hbrace
      simp [strayWidth]
    · simp only [strayWidth, List.takeWhile_cons, bne_iff_ne, ne_eq, hclose, hbrace,
        not_false_eq_true, if_true, if_false, List.length_cons, Nat.add_lt_add_iff_right]
      split <;> simp

/-- The glyphs up to a stray brace are the same where the text is cut off behind it. -/
theorem strayWidth_of_append (h : strayWidth (u ++ v) ≤ u.length) :
    strayWidth u = strayWidth (u ++ v) := by
  induction u with
  | nil => exact (Nat.le_zero.1 h).symm
  | cons c u ih =>
    rw [List.cons_append, strayWidth_cons, List.length_cons] at h
    rw [List.cons_append, strayWidth_cons, strayWidth_cons]
    -- unless the first glyph decides it, those behind it do
    have hu : c ≠ ')' → c ≠ '\x7d' → strayWidth (u ++ v) ≤ u.length := by
      intro hclose hbrace
      rw [if_neg hclose, if_neg hbrace] at h
      split at h <;> omega
    split
    · rfl
    · split
      · rfl
      · rw [ih (hu ‹_› ‹_›)]

theorem width_le_read_snd (t : Text) : (Counts.read t).width ≤ (read t).2 := by
  dsimp only [read]
  split <;> dsimp only <;> omega

/-- A quantifier is the same where the text is cut off behind it. -/
theorem read_of_append (h : (read (u ++ v)).2 ≤ u.length) : read u = read (u ++ v) := by
  have hwidth := Nat.le_trans (width_le_read_snd (u ++ v)) h
  have hcounts := Counts.read_of_append hwidth
  have hdrop : (u ++ v).drop (Counts.read (u ++ v)).width =
      u.drop (Counts.read (u ++ v)).width ++ v := List.drop_append_of_le_length hwidth
  have hlength := List.length_drop (i := (Counts.read (u ++ v)).width) (l := u)
  dsimp only [read] at h ⊢
  rw [hcounts]
  rw [hdrop] at h ⊢
  -- all that matters now is where the counts end and what stands behind them
  generalize Counts.read (u ++ v) = counts at h hwidth hlength ⊢
  generalize u.drop counts.width = rest at h hlength ⊢
  by_cases hclosed : counts.least ≠ [] ∧ (rest ++ v).head? = some '\x7d'
  · rw [if_pos hclosed] at h ⊢
    dsimp only at h
    cases rest with
    | nil =>
      rw [List.length_nil] at hlength
      omega
    | cons c w =>
      rw [if_pos (by simpa using hclosed)]
      rw [List.length_cons] at hlength
      simp only [List.cons_append, List.tail_cons] at h ⊢
      cases w with
      | nil =>
        -- the quantifier ends where the text is cut off, so it is not a lazy one
        have hlazy : (v.head? == some '?') = false := by
          cases hv : v.head? == some '?' with
          | false => rfl
          | true =>
            rw [List.nil_append, hv, Bool.toNat_true] at h
            rw [List.length_nil] at hlength
            omega
        rw [List.nil_append, hlazy]
        rfl
      | cons d w => rfl
  · rw [if_neg hclosed] at h ⊢
    dsimp only at h
    -- what the cut leaves is not closed either
    have hopen : ¬(counts.least ≠ [] ∧ rest.head? = some '\x7d') := by
      rintro ⟨hleast, hhead⟩
      exact hclosed ⟨hleast, by rw [List.head?_append, hhead]; rfl⟩
    rw [if_neg hopen, strayWidth_of_append (v := v) (by omega)]

end Quantifier

/-! ## Escapes -/

namespace Escape

variable {u v : Text} {escape : Escape} {width : Nat}

theorem backreference?_eq_some_iff (t : Text) (r : Text × Nat) :
    backreference? t = some r ↔ ∃ w, t = 'k' :: '<' :: w ∧
      ∃ name rest, Opener.wordUpTo? '>' w = some (name, rest) ∧ (name, name.length + 3) = r := by
  unfold backreference?
  split
  · simp [Option.map_eq_some_iff]
  · rename_i hstart
    constructor
    · intro h
      cases h
    · rintro ⟨w, rfl, -⟩
      exact absurd rfl (hstart w)

/-- A backreference is read whatever follows. -/
theorem backreference?_append_right {r : Text × Nat} (h : backreference? u = some r) (v : Text) :
    backreference? (u ++ v) = some r := by
  obtain ⟨w, rfl, name, rest, hname, rfl⟩ := (backreference?_eq_some_iff _ _).1 h
  exact (backreference?_eq_some_iff _ _).2
    ⟨w ++ v, rfl, name, _, Opener.wordUpTo?_append rfl hname v, rfl⟩

/-- A backreference does not depend on what follows it. -/
theorem readsLocally_backreference? : ReadsLocally Prod.snd backreference? where
  restrict u v r h hle := by
    obtain ⟨t, heq, name, rest, hname, rfl⟩ := (backreference?_eq_some_iff _ _).1 h
    replace hle : name.length + 3 ≤ u.length := hle
    obtain ⟨w, rfl, hrest⟩ := exists_cons_of_append_eq_cons heq (by omega)
    rw [List.length_cons] at hle
    obtain ⟨w, rfl, rfl⟩ := exists_cons_of_append_eq_cons hrest (by omega)
    rw [List.length_cons] at hle
    obtain ⟨w', hw, -⟩ := Opener.wordUpTo?_of_append rfl hname (by omega)
    exact (backreference?_eq_some_iff _ _).2 ⟨w, rfl, name, w', hw, rfl⟩
  extend u v r h := ⟨r, backreference?_append_right h v⟩

theorem take?_of_append {count : Nat} {taken : Text} (h : take? count (u ++ v) = some taken)
    (hle : count ≤ u.length) : take? count u = some taken := by
  rwa [take?, List.take_append_of_le_length hle] at h

/-- An escape that is no backreference is the same where the text is cut off behind it. -/
theorem readGlyph?_of_append {c : Char} (h : readGlyph? c (u ++ v) = some (escape, width))
    (hle : width ≤ u.length + 1) : readGlyph? c u = some (escape, width) := by
  unfold readGlyph? at h
  split at h
  · cases h
  · rename_i heq
    cases h
    obtain ⟨w, rfl, -⟩ := exists_cons_of_append_eq_cons heq (by omega)
    rfl
  · obtain ⟨digits, hdigits, he⟩ := Option.map_eq_some_iff.1 h
    cases he
    rw [readGlyph?, take?_of_append hdigits (by omega)]
    rfl
  · obtain ⟨digits, hdigits, he⟩ := Option.map_eq_some_iff.1 h
    cases he
    rw [readGlyph?, take?_of_append hdigits (by omega)]
    rfl
  · exact h
  -- any other escape is one glyph, so only that glyph matters
  · rename_i c _ _ _ _ _ hnil hcons
    have hc : c ≠ 'c' := by
      intro hc
      cases huv : u ++ v with
      | nil => exact hnil hc huv
      | cons d t => exact hcons d t hc huv
    unfold readGlyph?
    split <;> simp_all

/-- An escape takes up at least one glyph behind the backslash. -/
theorem pos_of_readGlyph?_eq_some {c : Char} {t : Text}
    (h : readGlyph? c t = some (escape, width)) : 0 < width := by
  unfold readGlyph? at h
  split at h
  · cases h
  · cases h
    exact Nat.succ_pos _
  · obtain ⟨digits, -, he⟩ := Option.map_eq_some_iff.1 h
    cases he
    exact Nat.succ_pos _
  · obtain ⟨digits, -, he⟩ := Option.map_eq_some_iff.1 h
    cases he
    exact Nat.succ_pos _
  · cases h
    exact Nat.succ_pos _
  · cases h
    exact Nat.succ_pos _

/-- An escape is the same where the text is cut off behind it. -/
theorem read?_of_append (h : read? (u ++ v) = some (escape, width)) (hle : width ≤ u.length) :
    read? u = some (escape, width) := by
  cases hb : backreference? (u ++ v) with
  | some r =>
    simp only [read?, hb] at h
    cases h
    simp only [read?, readsLocally_backreference?.restrict u v r hb hle]
  | none =>
    simp only [read?, hb] at h
    -- cutting off does not turn anything into a backreference
    simp only [read?, readsLocally_backreference?.eq_none hb]
    cases hu : u ++ v with
    | nil =>
      rw [hu] at h
      cases h
    | cons c t =>
      rw [hu] at h
      have hpos := pos_of_readGlyph?_eq_some h
      obtain ⟨w, rfl, rfl⟩ := exists_cons_of_append_eq_cons hu (by omega)
      exact readGlyph?_of_append h hle

end Escape

/-! ## Tokens -/

namespace Opener

/-- The token of an opener and the parenthesis before it. -/
def token (o : Opener) : Token :=
  match o.kind, o.hasBody with
  | .conditional, _ => .openCondition
  | kind, true => .openGroup kind
  | kind, false => .bareGroup kind

end Opener

namespace Token

variable {u v : Text}

/-- Whether a token is one that reading stops at, wherever it stands. -/
def isFault : Token → Bool
  | truncatedEscape | unknownGroup => true
  | _ => false

theorem readOpening_of_head?_ne {t : Text} (h : t.head? ≠ some '?') :
    readOpening t = (openPlain, 0) := by
  unfold readOpening
  split
  · exact absurd rfl h
  · rfl

theorem readOpening_question (t : Text) :
    readOpening ('?' :: t) =
      ((Opener.read? ('?' :: t)).map fun o => (o.token, o.reach)).getD (unknownGroup, 0) := by
  cases ho : Opener.read? ('?' :: t) with
  | none => simp [readOpening, ho]
  | some o =>
    obtain ⟨kind, width, hasBody⟩ := o
    simp only [readOpening, ho, Option.map_some, Option.getD_some]
    cases kind <;> cases hasBody <;> rfl

/-- What an opening parenthesis starts is the same where the text is cut off behind it. -/
theorem readOpening_of_append (h : (readOpening (u ++ v)).2 ≤ u.length)
    (hfault : (readOpening (u ++ v)).1.isFault = false) :
    readOpening u = readOpening (u ++ v) := by
  by_cases hq : (u ++ v).head? = some '?'
  · obtain ⟨t, ht⟩ := List.head?_eq_some_iff.1 hq
    rw [ht, readOpening_question, ← ht] at h hfault ⊢
    cases ho : Opener.read? (u ++ v) with
    | none =>
      rw [ho] at hfault
      cases hfault
    | some o =>
      rw [ho] at h
      have hread := Opener.readsLocally_read?.restrict u v o ho h
      cases u with
      | nil => cases hread
      | cons c u =>
        obtain ⟨rfl, -⟩ := List.cons.inj ht
        rw [readOpening_question, hread]
  · have hu : u.head? ≠ some '?' := by
      intro hu
      rw [List.head?_append, hu] at hq
      exact hq rfl
    rw [readOpening_of_head?_ne hq, readOpening_of_head?_ne hu]

theorem readRepeat_of_head?_ne {description t : Text} (h : t.head? ≠ some '?') :
    readRepeat description t = (atom (.special description), 0) := by
  unfold readRepeat
  split
  · exact absurd rfl h
  · rfl

/-- A quantifier of one glyph is the same where the text is cut off behind it. -/
theorem readRepeat_of_append {description : Text}
    (h : (readRepeat description (u ++ v)).2 ≤ u.length) :
    readRepeat description u = readRepeat description (u ++ v) := by
  cases u with
  | nil =>
    -- a question mark would be taken up, and nothing can be here
    by_cases hv : v.head? = some '?'
    · obtain ⟨t, rfl⟩ := List.head?_eq_some_iff.1 hv
      exact absurd h (Nat.not_succ_le_zero 0)
    · rw [List.nil_append, readRepeat_of_head?_ne hv, readRepeat_of_head?_ne (t := []) (by simp)]
  | cons c u =>
    by_cases hc : c = '?'
    · subst hc
      rfl
    · rw [List.cons_append, readRepeat_of_head?_ne (by simpa using hc),
        readRepeat_of_head?_ne (by simpa using hc)]

/-- A token read where nothing is skipped is the same where the text is cut off behind it. -/
theorem readGlyph_of_append {c : Char} (h : (readGlyph c (u ++ v)).2 ≤ u.length)
    (hfault : (readGlyph c (u ++ v)).1.isFault = false) :
    readGlyph c u = readGlyph c (u ++ v) := by
  unfold readGlyph at h hfault
  split at h
  · exact readOpening_of_append h hfault
  · rfl
  · simp only [readGlyph, CharClass.read_of_append h]
  · cases he : Escape.read? (u ++ v) with
    | none =>
      simp only [he] at hfault
      cases hfault
    | some r =>
      simp only [he] at h
      simp only [readGlyph, he, Escape.read?_of_append he h]
  · simp only [readGlyph, Quantifier.read_of_append h]
  iterate 5 rfl
  iterate 3 exact readRepeat_of_append h
  · -- any other glyph is a literal by itself
    unfold readGlyph
    split <;> simp_all

/-- A token that is no fault is the same where the text is cut off behind it. -/
theorem read_of_append {skipping : Bool} {c : Char} (h : (read skipping c (u ++ v)).2 ≤ u.length)
    (hfault : (read skipping c (u ++ v)).1.isFault = false) :
    read skipping c u = read skipping c (u ++ v) := by
  by_cases hblank : (skipping && isSkipped c) = true
  · rw [read, read, if_pos hblank, if_pos hblank]
  by_cases hcomment : (skipping && c == '#') = true
  · rw [read, if_neg hblank, if_pos hcomment] at h
    rw [read, read, if_neg hblank, if_neg hblank, if_pos hcomment, if_pos hcomment,
      takeWhile_of_append h]
  · rw [read, if_neg hblank, if_neg hcomment] at h hfault
    rw [read, read, if_neg hblank, if_neg hblank, if_neg hcomment, if_neg hcomment]
    exact readGlyph_of_append h hfault

end Token

/-! ## Stretches of a pattern -/

namespace Lexeme

variable {skipping : Bool} {t : Text} {before middle after : List Lexeme}

/-- Behind tokens of a text, its other tokens follow. -/
theorem lex_drop (h : lex skipping t = before ++ after) :
    lex skipping (t.drop (before.map width).sum) = after := by
  induction before generalizing t with
  | nil => exact h
  | cons l before ih =>
    cases t with
    | nil => cases h
    | cons c t =>
      rw [lex_cons, List.cons_append] at h
      obtain ⟨rfl, hrest⟩ := List.cons.inj h
      rw [← ih hrest, List.drop_drop, List.map_cons, List.sum_cons, Nat.add_right_comm,
        List.drop_succ_cons]

/-- The first tokens of a text are those of the glyphs that they take up. -/
theorem lex_take (h : lex skipping t = middle ++ after)
    (hfault : ∀ l ∈ middle, l.token.isFault = false) :
    lex skipping (t.take (middle.map width).sum) = middle := by
  induction middle generalizing t with
  | nil => rw [List.map_nil, List.sum_nil, List.take_zero, lex_nil]
  | cons l middle ih =>
    cases t with
    | nil => cases h
    | cons c t =>
      rw [lex_cons, List.cons_append] at h
      obtain ⟨rfl, hrest⟩ := List.cons.inj h
      generalize hr : Token.read skipping c t = r at hrest hfault ⊢
      have hle : r.2 ≤ t.length := hr ▸ Token.read_snd_le skipping c t
      have hsplit := List.take_append_drop (r.2 + (middle.map width).sum) t
      have hlength := List.length_take (i := r.2 + (middle.map width).sum) (l := t)
      -- the first token is read from its own glyphs and those of the other tokens
      have hread : Token.read skipping c (t.take (r.2 + (middle.map width).sum)) = r := by
        rw [Token.read_of_append (v := t.drop (r.2 + (middle.map width).sum)), hsplit, hr]
        · rw [hsplit, hr]
          omega
        · rw [hsplit, hr]
          exact hfault _ List.mem_cons_self
      have hwidth : ((⟨r.1, r.2 + 1⟩ :: middle).map width).sum =
          r.2 + (middle.map width).sum + 1 := by
        rw [List.map_cons, List.sum_cons, Nat.add_right_comm]
      rw [hwidth, List.take_succ_cons, lex_cons, hread, List.drop_take, Nat.add_sub_cancel_left,
        ih hrest fun l hl => hfault l (List.mem_cons_of_mem _ hl)]

/-- A stretch of a text between two tokens has the same tokens by itself. -/
theorem lex_slice (h : lex skipping t = before ++ middle ++ after)
    (hfault : ∀ l ∈ middle, l.token.isFault = false) :
    lex skipping ((t.drop (before.map width).sum).take (middle.map width).sum) = middle := by
  rw [List.append_assoc] at h
  exact lex_take (lex_drop h) hfault

end Lexeme

end RegexGloss
