import Mathlib.Data.List.Forall2
import RegexGloss.Proofs.Spelling.Token
import RegexGloss.Proofs.Token.Glyphs

/-!
# How literals are written

A literal of a pattern is written in one of two ways (`Text.WritesLiteral`): an ordinary glyph says
itself, and a backslash in front of a glyph that is not the start of another escape says that glyph,
a space being spelled out. Whatever tokens stand around them, the literals that follow each other in
a pattern are written piece by piece like this (`Lexeme.writesLiterals_of_lex_eq`).
-/

namespace RegexGloss

/-! ## Ways to write a literal -/

/-- A glyph has no other meaning, and it is not skipped. -/
def Text.IsOrdinary (skipping : Bool) (c : Char) : Prop :=
  c ∉ metaGlyphs ∧ c ≠ ' ' ∧ (skipping = true → c ∉ skippedGlyphs)

/-- A backslash in front of a glyph makes it no shorthand, nor does it ask for more glyphs. -/
def Escape.IsOrdinary (c : Char) : Prop := c ∉ ['c', 'u', 'x'] ∧ shorthand? c = none

namespace Text

/-- Glyphs of a pattern write a literal with this text. -/
inductive WritesLiteral (skipping : Bool) : Text → Text → Prop where
  /-- An ordinary glyph says itself. -/
  | glyph {c : Char} (h : IsOrdinary skipping c) : WritesLiteral skipping [c] [c]
  /-- An escape of one glyph says that glyph. A space is spelled out. -/
  | escape {c : Char} (h : Escape.IsOrdinary c) :
    WritesLiteral skipping ['\\', c] (if c = ' ' then spaceMark else [c])

/-- Glyphs of a pattern split into pieces that write literals with these texts. -/
def WritesLiterals (skipping : Bool) (s : Text) (texts : List Text) : Prop :=
  ∃ pieces : List Text, pieces.flatten = s ∧ List.Forall₂ (WritesLiteral skipping) pieces texts

theorem writesLiterals_nil (skipping : Bool) : WritesLiterals skipping [] [] :=
  ⟨[], rfl, .nil⟩

theorem WritesLiteral.cons {skipping : Bool} {s t text : Text} {texts : List Text}
    (h : WritesLiteral skipping s text) (ht : WritesLiterals skipping t texts) :
    WritesLiterals skipping (s ++ t) (text :: texts) := by
  obtain ⟨pieces, rfl, hpieces⟩ := ht
  exact ⟨s :: pieces, rfl, .cons h hpieces⟩

end Text

/-! ## Literals that are read -/

namespace Escape

/-- Only an escape of one glyph stands for a literal. -/
theorem literal_of_readGlyph? {c : Char} {t text : Text} {escape : Escape} {width : Nat}
    (h : readGlyph? c t = some (escape, width)) (hatom : escape.atom = .literal text) :
    width = 1 ∧ IsOrdinary c ∧ text = if c = ' ' then spaceMark else [c] := by
  unfold readGlyph? at h
  split at h
  · cases h
  · cases h
    cases hatom
  -- the codes in digits
  iterate 2
    obtain ⟨digits, -, he⟩ := Option.map_eq_some_iff.1 h
    cases he
    cases hatom
  · cases h
    cases hatom
    exact ⟨rfl, ⟨by decide, rfl⟩, rfl⟩
  · rename_i hunicode hhex hspace hempty hcontrol
    cases h
    cases hshorthand : shorthand? c with
    | some description =>
      rw [hshorthand] at hatom
      cases hatom
    | none =>
      rw [hshorthand] at hatom
      cases hatom
      -- a `c` would make a control character or be too short
      have hletter : c ∉ ['c', 'u', 'x'] := by
        simp only [List.mem_cons, List.not_mem_nil, or_false, not_or]
        refine ⟨?_, hunicode, hhex⟩
        rintro rfl
        cases t with
        | nil => exact hempty rfl rfl
        | cons d t => exact hcontrol d t rfl rfl
      exact ⟨rfl, ⟨hletter, hshorthand⟩, (if_neg hspace).symm⟩

/-- Only an escape of one glyph stands for a literal. -/
theorem literal_of_read? {t text : Text} {escape : Escape} {width : Nat}
    (h : read? t = some (escape, width)) (hatom : escape.atom = .literal text) :
    ∃ c u, t = c :: u ∧ width = 1 ∧ IsOrdinary c ∧
      text = if c = ' ' then spaceMark else [c] := by
  unfold read? at h
  split at h
  · cases h
    cases hatom
  · split at h
    · cases h
    · exact ⟨_, _, rfl, literal_of_readGlyph? h hatom⟩

end Escape

namespace Token

/-- An ordinary glyph is read as itself. -/
theorem read_of_isOrdinary {skipping : Bool} {c : Char} (h : Text.IsOrdinary skipping c)
    (t : Text) : read skipping c t = (.atom (.literal [c]), 0) := by
  obtain ⟨hmeta, hspace, hskip⟩ := h
  have hglyph : read skipping c t = readGlyph c t := by
    cases skipping with
    | false => rfl
    | true =>
      have hc := hskip rfl
      simp only [skippedGlyphs, List.mem_cons, List.not_mem_nil, or_false, not_or] at hc
      obtain ⟨hcomment, htab, hreturn, hfeed⟩ := hc
      -- it is no blank and does not start a comment
      have hblank : isSkipped c = false := by
        simp [isSkipped, hspace, htab, hreturn, hfeed]
      have hhash : (c == '#') = false := beq_eq_false_iff_ne.2 hcomment
      rw [read, hblank, hhash, Bool.and_false, if_neg Bool.false_ne_true,
        if_neg Bool.false_ne_true]
  rw [hglyph, readGlyph_of_notMem_metaGlyphs hmeta hspace]

theorem readRepeat_fst_ne_literal (description t text : Text) :
    (readRepeat description t).1 ≠ .atom (.literal text) := by
  unfold readRepeat
  split <;> exact nofun

/-- The glyphs of a literal write its text. -/
theorem writesLiteral_of_readGlyph {skipping : Bool} {c : Char} {t text : Text} {width : Nat}
    (hskip : skipping = true → c ∉ skippedGlyphs)
    (h : readGlyph c t = (.atom (.literal text), width)) :
    Text.WritesLiteral skipping ((c :: t).take (width + 1)) text := by
  unfold readGlyph at h
  split at h
  · have hglyph := firstGlyph?_readOpening t
    rw [h] at hglyph
    cases hglyph
  · cases h
  · cases h
  · split at h
    · rename_i escape _ hread
      obtain ⟨htoken, rfl⟩ := Prod.mk.inj h
      obtain ⟨d, u, rfl, rfl, hd, rfl⟩ := Escape.literal_of_read? hread (Token.atom.inj htoken)
      exact .escape hd
    · cases h
  -- a quantifier in braces, a bar, a space and the anchors
  iterate 6 cases h
  iterate 3 exact absurd (congrArg Prod.fst h) (readRepeat_fst_ne_literal _ _ _)
  · have hmeta : c ∉ metaGlyphs := by
      simp only [metaGlyphs, List.mem_cons, List.not_mem_nil, or_false]
      grind
    cases h
    exact .glyph ⟨hmeta, ‹_›, hskip⟩

/-- The glyphs of a literal write its text, whether blanks are skipped or not. -/
theorem writesLiteral_of_read {skipping : Bool} {c : Char} {t text : Text} {width : Nat}
    (h : read skipping c t = (.atom (.literal text), width)) :
    Text.WritesLiteral skipping ((c :: t).take (width + 1)) text := by
  unfold read at h
  split at h
  · cases h
  split at h
  · cases h
  rename_i hblank hcomment
  apply writesLiteral_of_readGlyph _ h
  rintro rfl hc
  -- what is skipped is a blank or starts a comment
  simp only [skippedGlyphs, List.mem_cons, List.not_mem_nil, or_false] at hc
  rcases hc with rfl | rfl | rfl | rfl
  · exact hcomment rfl
  · exact hblank rfl
  · exact hblank rfl
  · exact hblank rfl

end Token

namespace Lexeme

/-- The first tokens of a text are written piece by piece if they are literals. -/
theorem writesLiterals_of_lex_eq {skipping : Bool} {t : Text} {ls : List Literal}
    {after : List Lexeme} (h : lex skipping t = ls.map Literal.lexeme ++ after) :
    Text.WritesLiterals skipping (t.take (Literal.widthAll ls)) (ls.map Literal.text) := by
  induction ls generalizing t with
  | nil => exact Text.writesLiterals_nil skipping
  | cons l ls ih =>
    cases t with
    | nil => cases h
    | cons c u =>
      rw [lex_cons, List.map_cons, List.cons_append] at h
      obtain ⟨hl, hrest⟩ := List.cons.inj h
      obtain ⟨htoken, hwidth⟩ := Lexeme.mk.inj hl
      have hextra : (Token.read skipping c u).2 = l.extra := Nat.succ.inj hwidth
      rw [hextra] at hrest
      -- the glyphs of the first literal, and behind them those of the others
      have hsplit : (c :: u).take (Literal.widthAll (l :: ls)) =
          (c :: u).take (l.extra + 1) ++ (u.drop l.extra).take (Literal.widthAll ls) := by
        rw [Literal.widthAll_cons, List.take_add, List.drop_succ_cons]
      rw [hsplit, List.map_cons]
      refine Text.WritesLiteral.cons (Token.writesLiteral_of_read ?_) (ih hrest)
      exact Prod.ext htoken hextra

end Lexeme

end RegexGloss
