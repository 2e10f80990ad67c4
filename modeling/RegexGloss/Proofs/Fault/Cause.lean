import RegexGloss.Proofs.Construct.Faults
import RegexGloss.Proofs.Token.Glyphs

/-!
# Faults point at their causes

A fault says why a pattern cannot be read and where this shows. `Fault.Shows` says what has to stand
at that place: the parenthesis that is not closed or closes nothing, the second bar, the start of an
unknown group, the end of the pattern. Main statement: `firstFault_read`.
-/

namespace RegexGloss

namespace Fault

/-- The cause of a fault shows at its position in a pattern. -/
def Shows (f : Fault) (pattern : Text) : Prop :=
  match f.cause with
  | .endOfPattern => f.pos = pattern.length
  | .unknownGroup =>
    pattern[f.pos]? = some '(' ∧ pattern[f.pos + 1]? = some '?' ∧
      Opener.read? (pattern.drop (f.pos + 1)) = none
  | .unclosedGroup => pattern[f.pos]? = some '('
  | .closeExpected => False
  | .surplusBar => pattern[f.pos]? = some '|'
  | .surplusClose => pattern[f.pos]? = some ')'

/-- A cause that shows is pointed at within the pattern. -/
theorem Shows.location_le {f : Fault} {pattern : Text} (h : f.Shows pattern) :
    f.location.offset + f.location.length ≤ pattern.length := by
  have hlt {i : Nat} {c : Char} (hc : pattern[i]? = some c) : i < pattern.length :=
    (List.getElem?_eq_some_iff.1 hc).1
  obtain ⟨cause, pos⟩ := f
  cases cause with
  | endOfPattern => exact Nat.le_of_eq h
  | unknownGroup => exact hlt h.2.1
  | closeExpected => exact h.elim
  | unclosedGroup | surplusBar | surplusClose => exact hlt h

end Fault

open Construct

namespace Enclosure

variable {e : Enclosure} {cs : List Construct} {l : Lexeme} {rest : List Lexeme} {pattern : Text}
  {skipping : Bool}

theorem sum_width_lexemes (e : Enclosure) (cs : List Construct) :
    ((e.lexemes ++ lexemesAll cs).map Lexeme.width).sum = e.width + widthAll cs := by
  rw [List.map_append, List.sum_append]
  rfl

/-- Behind open groups and constructs stand the glyphs of the next token. -/
theorem exists_read_of_lex_eq
    (h : Lexeme.lex skipping pattern = e.lexemes ++ lexemesAll cs ++ l :: rest) :
    ∃ c u, pattern.drop (e.width + widthAll cs) = c :: u ∧
      (Token.read skipping c u).1 = l.token ∧ (Token.read skipping c u).2 + 1 = l.width := by
  rw [← sum_width_lexemes]
  exact Lexeme.exists_read_of_lex_eq h

/-- Behind open groups and constructs stands the glyph that the next token has to start with. -/
theorem getElem?_of_firstGlyph?
    (h : Lexeme.lex skipping pattern = e.lexemes ++ lexemesAll cs ++ l :: rest) {g : Char}
    (hg : l.token.firstGlyph? = some g) :
    pattern[e.width + widthAll cs]? = some g := by
  rw [← sum_width_lexemes]
  exact Lexeme.getElem?_of_firstGlyph? h hg

/-- What halts reading shows at its place. -/
theorem Halts.shows {f : Fault} (h : e.Halts cs rest f)
    (hbegins : e.Begins cs rest (Lexeme.lex skipping pattern)) : f.Shows pattern := by
  have hlex := hbegins.lexemes_eq.symm
  cases h with
  | truncatedEscape _ _ width rest =>
    obtain ⟨c, u, hu, hread, hwidth⟩ := exists_read_of_lex_eq hlex
    rw [Token.truncatedEscape_of_read hread] at hwidth
    have hlength := congrArg List.length hu
    rw [List.length_drop, List.length_cons] at hlength
    show e.width + widthAll cs + width = pattern.length
    dsimp only at hwidth
    omega
  | unknownGroup _ _ width rest =>
    obtain ⟨c, u, hu, hread, -⟩ := exists_read_of_lex_eq hlex
    obtain ⟨rfl, hquestion, hnone⟩ := Token.unknownGroup_of_read hread
    have hdrop : pattern.drop (e.width + widthAll cs + 1) = u := by
      rw [← List.drop_drop, hu, List.drop_succ_cons, List.drop_zero]
    refine ⟨?_, ?_, ?_⟩
    · rw [← List.head?_drop, hu, List.head?_cons]
    · rw [← List.head?_drop, hdrop, hquestion]
    · rw [hdrop, hnone]
  | surplusClose cs rest =>
    have hglyph := getElem?_of_firstGlyph? hlex (g := ')') rfl
    rwa [width, lexemes, List.map_nil, List.sum_nil, Nat.zero_add] at hglyph
  | surplusBar outer before test first after rest hfirst hrest =>
    rw [lexemesAll_append, lexemesAll_cons, ← List.append_assoc, List.append_assoc] at hlex
    exact getElem?_of_firstGlyph? hlex (g := '|') rfl
  | unclosedGroup outer before heading extra cs =>
    rw [List.append_nil, lexemes, List.append_assoc] at hlex
    refine getElem?_of_firstGlyph? hlex (g := '(') ?_
    cases heading <;> rfl
  | unclosedCondition outer before cs =>
    -- it is the parenthesis of the condition that is not closed
    rw [List.append_nil, lexemes, List.append_assoc] at hlex
    obtain ⟨c, u, hu, hread, -⟩ := exists_read_of_lex_eq hlex
    obtain ⟨rfl, v, rfl⟩ := Token.openCondition_of_read hread
    show pattern[outer.width + widthAll before + 2]? = some '('
    rw [← List.getElem?_drop, hu]
    rfl
  | unclosedBranches outer before test cs hcs =>
    rw [lexemes, List.append_assoc, List.append_assoc] at hlex
    exact getElem?_of_firstGlyph? hlex (g := '(') rfl

end Enclosure

/-- A reader that halts keeps the place that its fault points at, and the cause shows there. -/
theorem exists_read_of_explain_eq_error {pattern : Text} {o : Options} {f : Fault}
    (h : explain pattern o = .error f) :
    f.Shows pattern ∧ ∃ r : Reader, Reader.read { pattern, options := o } = (.error f, r) ∧
      r.firstFault = some f.location := by
  rw [explain, Reader.read] at h
  rw [Reader.read]
  simp only [Reader.remaining, List.drop_zero] at h ⊢
  cases hread : Assembly.assemble o 0 (Lexeme.lex o.ignoreWhitespace pattern) with
  | ok a =>
    rw [hread] at h
    cases h
  | error halt =>
    rw [hread] at h
    cases h
    obtain ⟨e, cs, rest, hbegins, hhalts⟩ := exists_reached_lex_iff.1 ⟨halt.reached, hread⟩
    exact ⟨hhalts.shows hbegins, _, rfl, rfl⟩

/-- The place that a reader keeps of a fault is the one that the fault points at, it lies within the
pattern, and the cause shows there. Without a fault no place is kept. -/
theorem firstFault_read (pattern : Text) (o : Options) :
    match Reader.read { pattern, options := o } with
    | (.ok _, r) => r.firstFault = none
    | (.error f, r) =>
      r.firstFault = some f.location ∧
        f.location.offset + f.location.length ≤ pattern.length ∧ f.Shows pattern := by
  rw [Reader.read]
  simp only [Reader.remaining, List.drop_zero]
  cases h : Assembly.assemble o 0 (Lexeme.lex o.ignoreWhitespace pattern) with
  | ok a => rfl
  | error halt =>
    obtain ⟨e, cs, rest, hbegins, hhalts⟩ := exists_reached_lex_iff.1 ⟨halt.reached, h⟩
    have hshows := hhalts.shows hbegins
    exact ⟨rfl, hshows.location_le, hshows⟩

end RegexGloss
