import RegexGloss.Proofs.Construct.Settled

/-!
# Parentheses that close nothing

A closing parenthesis outside of all groups is a fault whatever follows it, because everything that
was read before it is complete: no class, name, quantifier or comment goes on across it. So the
pattern up to the parenthesis can be explained, and no text behind it changes the fault. Main
statement: `explain_of_surplusClose`.
-/

namespace RegexGloss

open Construct

/-- Behind a comment stands a glyph that ends it. -/
theorem Lexeme.endsComment_of_firstGlyph? {skipping : Bool} {t : Text} {before after : List Lexeme}
    {l m : Lexeme} (h : lex skipping t = before ++ l :: m :: after) (hl : l.token = .comment)
    {g : Char} (hg : m.token.firstGlyph? = some g) : Token.endsComment g = true := by
  obtain ⟨c, u, hu, hread, hwidth⟩ := exists_read_of_lex_eq h
  have hglyph := getElem?_of_firstGlyph? (h.trans (List.append_cons ..)) hg
  rw [List.map_append, List.map_singleton, List.sum_append, List.sum_singleton,
    ← List.getElem?_drop, hu, ← hwidth, List.getElem?_cons_succ, Token.comment_of_read (hread.trans hl),
    ← List.head?_drop] at hglyph
  -- the comment takes up the glyphs that do not end it, so the next one does
  have hdrop : u.drop (u.takeWhile fun c => !Token.endsComment c).length =
      u.dropWhile fun c => !Token.endsComment c := by
    have hsplit := List.takeWhile_append_dropWhile (p := fun c => !Token.endsComment c) (l := u)
    calc u.drop (u.takeWhile fun c => !Token.endsComment c).length
      _ = ((u.takeWhile fun c => !Token.endsComment c) ++
            u.dropWhile fun c => !Token.endsComment c).drop
            (u.takeWhile fun c => !Token.endsComment c).length := by rw [hsplit]
      _ = u.dropWhile fun c => !Token.endsComment c := List.drop_left
  have hends := List.head?_dropWhile_not (fun c => !Token.endsComment c) u
  rw [← hdrop, hglyph] at hends
  simpa using hends

namespace Construct

variable {cs : List Construct} {o : Options} {p : Text} {rest : List Lexeme}

/-- Constructs that a closing parenthesis follows make up the pattern before it. -/
theorem forms_take (hcs : ProperAll cs)
    (hlex : Lexeme.lex o.ignoreWhitespace p = lexemesAll cs ++ closing :: rest) :
    Forms cs o (p.take (widthAll cs)) :=
  ⟨hcs, (Lexeme.lex_take hlex
    (Assembly.isFault_of_run (Assembly.run_lexemesAll o { offset := 0 } cs hcs))).symm⟩

/-- A class without a bracket would have taken up the closing parenthesis. -/
theorem unterminated_notMem_nodesAll
    (hlex : Lexeme.lex o.ignoreWhitespace p = lexemesAll cs ++ closing :: rest) :
    .atom (.charClass .unterminated) ∉ nodesAll o 0 cs := by
  intro hmem
  obtain ⟨extra, hmem⟩ :=
    exists_atom_mem_of_mem_nodesAll (a := .charClass .unterminated) nofun hmem
  obtain ⟨first, after, rfl⟩ := List.append_of_mem hmem
  have hsplit : Lexeme.lex o.ignoreWhitespace p = lexemesAll first ++
      ⟨.atom (.charClass .unterminated), extra + 1⟩ :: (lexemesAll after ++ closing :: rest) := by
    rw [hlex, lexemesAll_append, lexemesAll_cons, List.append_assoc, List.append_assoc]
    rfl
  have hnil := Lexeme.eq_nil_of_unterminated hsplit
  exact List.cons_ne_nil _ _ (List.append_eq_nil_iff.1 hnil).2

/-- A comment would have taken up the closing parenthesis. -/
theorem not_endsInComment_take (hcs : ProperAll cs)
    (hlex : Lexeme.lex o.ignoreWhitespace p = lexemesAll cs ++ closing :: rest) :
    ¬Lexeme.EndsInComment o.ignoreWhitespace (p.take (widthAll cs)) := by
  rintro ⟨l, hl, hcomment⟩
  rw [← (forms_take hcs hlex).lexemesAll_eq] at hl
  obtain ⟨init, hinit⟩ := List.getLast?_eq_some_iff.1 hl
  rw [hinit, List.append_assoc] at hlex
  have hends := Lexeme.endsComment_of_firstGlyph? hlex hcomment (g := ')') rfl
  exact absurd hends (by decide)

end Construct

/-- Where a parenthesis closes nothing, the pattern before it can be explained, and the fault stays
the same with any other text behind it. -/
theorem explain_of_surplusClose {p : Text} {o : Options} {pos : Nat}
    (h : explain p o = .error ⟨.surplusClose, pos⟩) :
    (∃ e, explain (p.take pos) o = .ok e) ∧
      ∀ q, explain (p.take (pos + 1) ++ q) o = .error ⟨.surplusClose, pos⟩ := by
  obtain ⟨enclosure, cs, rest, hbegins, hhalts⟩ := explain_eq_error_iff.1 h
  obtain ⟨-, hcs, hlex⟩ := hbegins
  cases hhalts with | surplusClose cs rest
  replace hlex : Lexeme.lex o.ignoreWhitespace p = lexemesAll cs ++ closing :: rest := hlex.symm
  have hforms := forms_take hcs hlex
  refine ⟨⟨_, explain_eq_ok_iff.2 ⟨cs, hforms, rfl⟩⟩, fun q => ?_⟩
  have hglyph : p[widthAll cs]? = some ')' := Lexeme.getElem?_of_firstGlyph? hlex rfl
  have htake : p.take (widthAll cs + 1) ++ q = p.take (widthAll cs) ++ ')' :: q := by
    rw [List.take_add_one, hglyph, Option.toList_some, List.append_assoc, List.singleton_append]
  have hextended := hforms.lex_append_closing (unterminated_notMem_nodesAll hlex)
    (not_endsInComment_take hcs hlex) q
  refine explain_eq_error_iff.2 ⟨.none, cs, closing :: Lexeme.lex o.ignoreWhitespace q,
    ⟨trivial, hcs, ?_⟩, .surplusClose cs _⟩
  rw [htake, hextended]
  rfl

/-- The parenthesis inside the comment closes nothing either, but is skipped. -/
theorem explain_of_surplusClose_comment :
    explain ['#', ')', '\n', ')'] { ignoreWhitespace := true } = .error ⟨.surplusClose, 3⟩ ∧
      (∃ e, explain ['#', ')', '\n'] { ignoreWhitespace := true } = .ok e) ∧
      explain ['#', ')', '\n', ')', '(', '?'] { ignoreWhitespace := true } =
        .error ⟨.surplusClose, 3⟩ := by
  have h : explain ['#', ')', '\n', ')'] { ignoreWhitespace := true } =
      .error ⟨.surplusClose, 3⟩ := rfl
  exact ⟨h, (explain_of_surplusClose h).1, (explain_of_surplusClose h).2 ['(', '?']⟩

end RegexGloss
