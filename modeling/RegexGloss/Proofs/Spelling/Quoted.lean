import RegexGloss.Proofs.Index.Outermost
import RegexGloss.Proofs.Token.Literal

/-!
# Quoted texts

Any text without spaces can be quoted, so that every glyph of it stands for itself: a backslash is
put in front of each glyph that has another meaning (`Text.quoteAll`). The explanation says the text
again in one line, and its index has a single entry, whatever constructs the text looks like.

Which glyphs have to be quoted depends on whether blanks are skipped (`Quotes`). Tokens of one glyph
and of two follow each other in any order, and all of them belong to the same run.

Main statement: `explain_quoteAll`.
-/

namespace RegexGloss

open Text

/-- A text with a backslash in front of some of its glyphs. -/
def Text.quoteAll (quoted t : Text) : Text :=
  t.flatMap fun c => if c ∈ quoted then ['\\', c] else [c]

/-- Every glyph stands for itself if some of them are quoted, but for the space. -/
structure Quotes (skipping : Bool) (quoted : Text) : Prop where
  /-- A glyph that is quoted stands for itself behind a backslash. -/
  escaped : ∀ c ∈ quoted, ∀ t, Escape.read? (c :: t) = some (.literal c, 1)
  /-- A glyph that is not quoted stands for itself anywhere. -/
  plain : ∀ c, c ≠ ' ' → c ∉ quoted → ∀ t, Token.read skipping c t = (.atom (.literal [c]), 0)

/-- Unless blanks are skipped, it is enough to quote the glyphs that never stand for themselves. -/
theorem quotes_metaGlyphs : Quotes false metaGlyphs := by
  constructor
  · intro c hc t
    exact Escape.read?_of_mem_metaGlyphs hc t
  · intro c hspace hc t
    have hordinary : IsOrdinary false c := ⟨hc, hspace, fun hskipping => by cases hskipping⟩
    exact Token.read_of_isOrdinary hordinary t

/-- Blanks and comments are quoted too where they are skipped. -/
theorem quotes_skippedGlyphs (skipping : Bool) : Quotes skipping (metaGlyphs ++ skippedGlyphs) := by
  constructor
  · intro c hc t
    rcases List.mem_append.1 hc with hc | hc
    · exact Escape.read?_of_mem_metaGlyphs hc t
    · simp only [skippedGlyphs, List.mem_cons, List.not_mem_nil, or_false] at hc
      rcases hc with rfl | rfl | rfl | rfl <;> rfl
  · intro c hspace hc t
    rw [List.mem_append, not_or] at hc
    obtain ⟨hmeta, hskipped⟩ := hc
    exact Token.read_of_isOrdinary ⟨hmeta, hspace, fun _ => hskipped⟩ t

/-- A quoted text is read as literals, whose texts are the glyphs of the text. -/
theorem Quotes.exists_lex_quoteAll {skipping : Bool} {quoted : Text} (h : Quotes skipping quoted)
    {t : Text} (hspace : ' ' ∉ t) :
    ∃ ls : List Literal, Lexeme.lex skipping (quoteAll quoted t) = ls.map Literal.lexeme ∧
      Literal.textAll ls = t := by
  induction t with
  | nil => exact ⟨[], rfl, rfl⟩
  | cons c t ih =>
    rw [List.mem_cons, not_or] at hspace
    obtain ⟨ls, hls, htext⟩ := ih hspace.2
    have hc : c ≠ ' ' := Ne.symm hspace.1
    -- the first glyph adds a literal, with or without a backslash
    by_cases hmem : c ∈ quoted
    · have hquote : quoteAll quoted (c :: t) = '\\' :: c :: quoteAll quoted t := by
        rw [quoteAll, List.flatMap_cons, if_pos hmem]
        rfl
      have hread (u : Text) : Token.read skipping '\\' (c :: u) = (.atom (.literal [c]), 1) := by
        have hglyph : Token.read skipping '\\' (c :: u) = Token.readGlyph '\\' (c :: u) := by
          cases skipping <;> rfl
        rw [hglyph, Token.readGlyph, h.escaped c hmem]
        rfl
      refine ⟨⟨[c], 1, dropSpaces_of_isVisible (isVisible_singleton hc)⟩ :: ls, ?_, ?_⟩
      · rw [hquote, Lexeme.lex_cons, hread, List.drop_succ_cons, List.drop_zero, hls]
        rfl
      · exact congrArg (c :: ·) htext
    · have hquote : quoteAll quoted (c :: t) = c :: quoteAll quoted t := by
        rw [quoteAll, List.flatMap_cons, if_neg hmem]
        rfl
      refine ⟨⟨[c], 0, dropSpaces_of_isVisible (isVisible_singleton hc)⟩ :: ls, ?_, ?_⟩
      · rw [hquote, Lexeme.lex_cons, h.plain c hc hmem, List.drop_zero, hls]
        rfl
      · exact congrArg (c :: ·) htext

/-- A pattern says just a text: in words it is the text in one line, and the one entry of its index
is a run of literals over the whole pattern. -/
def SaysText (pattern : Text) (o : Options) (t : Text) : Prop :=
  ∃ e, explain pattern o = .ok e ∧ e.text = t ++ lineEnd ∧
    e.index.entries = [⟨.literal, 0, pattern.length - 1, t⟩]

open Construct

/-- A pattern of literals says their texts. -/
theorem saysText_of_lex_eq {pattern : Text} {o : Options} {first : Literal} {more : List Literal}
    (hlex : Lexeme.lex o.ignoreWhitespace pattern = (first :: more).map Literal.lexeme)
    (htext : Literal.textAll (first :: more) ≠ []) :
    SaysText pattern o (Literal.textAll (first :: more)) := by
  have hproper : (run first more).Proper := trivial
  have hforms : Forms [run first more] o pattern := forms_singleton hproper hlex
  have hlength : pattern.length = first.extra + 1 + Literal.widthAll more := by
    rw [← hforms.widthAll_eq, widthAll_cons, widthAll_nil, width_run, Literal.width, Nat.add_zero]
  refine ⟨_, explain_eq_ok_iff.2 ⟨_, hforms, rfl⟩, ?_, ?_⟩
  · rw [Explanation.text, tree_explanation_singleton, nodes, Node.renderAll,
      ← List.append_nil ((first :: more).map Literal.node), renderFrom_literals, List.nil_append]
    show line 0 (Literal.textAll (first :: more)) = _
    rw [line, if_neg (by simpa using htext)]
    rfl
  · have hstop : 0 + first.extra + Literal.widthAll more = pattern.length - 1 := by omega
    rw [entries_explanation_singleton o hproper, spans, hstop]

/-- What is quoted is said. -/
theorem Quotes.saysText {o : Options} {quoted : Text} (h : Quotes o.ignoreWhitespace quoted)
    {t : Text} (ht : t ≠ []) (hspace : ' ' ∉ t) : SaysText (quoteAll quoted t) o t := by
  obtain ⟨ls, hls, rfl⟩ := h.exists_lex_quoteAll hspace
  cases ls with
  | nil => exact absurd rfl ht
  | cons first more => exact saysText_of_lex_eq hls ht

/-- A quoted text says the text, with any options. Unless blanks are skipped, the glyphs need no
quotes that have another meaning only then. -/
theorem explain_quoteAll (o : Options) {t : Text} (ht : t ≠ []) (hspace : ' ' ∉ t) :
    SaysText (quoteAll (metaGlyphs ++ skippedGlyphs) t) o t ∧
      (o.ignoreWhitespace = false → SaysText (quoteAll metaGlyphs t) o t) := by
  constructor
  · exact (quotes_skippedGlyphs o.ignoreWhitespace).saysText ht hspace
  · intro ho
    have hquotes : Quotes o.ignoreWhitespace metaGlyphs := by
      rw [ho]
      exact quotes_metaGlyphs
    exact hquotes.saysText ht hspace

/-- A text that looks like a backreference, settings, a quantifier and a comment. -/
theorem explain_quoteAll_constructs :
    SaysText "\\\\k<a>\\(\\?i\\)\\{2}\\#\\\n".toList ⟨true, true⟩ "\\k<a>(?i){2}#\n".toList := by
  have hquoted : quoteAll (metaGlyphs ++ skippedGlyphs) "\\k<a>(?i){2}#\n".toList =
      "\\\\k<a>\\(\\?i\\)\\{2}\\#\\\n".toList := by decide +kernel
  rw [← hquoted]
  exact (explain_quoteAll ⟨true, true⟩ (by simp) (by simp)).1

end RegexGloss
