import RegexGloss.Proofs.Construct.Faults
import RegexGloss.Proofs.Token.Append

/-!
# Constructs that nothing behind them changes

The tokens of a pattern that can be explained are settled (`Lexeme.SettledAll`), apart from a class
without a bracket, a malformed quantifier outside of all groups and a comment at the end. So with
more text behind it that starts with a bar or a closing parenthesis, the pattern is still read as
the same constructs. Main statements: `Construct.Forms.settledAll` and, for a closing parenthesis,
`Construct.Forms.lex_append_closing`.
-/

namespace RegexGloss

open Text

/-- A text ends inside a comment that is skipped. -/
def Lexeme.EndsInComment (skipping : Bool) (t : Text) : Prop :=
  ∃ l ∈ (lex skipping t).getLast?, l.token = .comment

/-- Unless blanks are skipped, no text ends inside a comment. -/
theorem Lexeme.not_endsInComment (t : Text) : ¬EndsInComment false t := by
  rintro ⟨l, hl, hcomment⟩
  exact (not_skipped_of_mem_lex (List.mem_of_getLast? hl)).2 hcomment

namespace Construct

/-- A construct that closes a group does so with its last token. -/
theorem exists_lexemes_eq_concat {c : Construct} (h : closing ∈ c.lexemes) :
    ∃ init, c.lexemes = init ++ [closing] := by
  cases c with
  | skipped comment extra => cases comment <;> simp [lexemes, closing] at h
  | run first more => simp [lexemes, closing, Literal.lexeme] at h
  | atom | bar | bare => simp [lexemes, closing] at h
  | group heading extra body => exact ⟨opening heading extra :: lexemesAll body, by simp [lexemes]⟩
  | conditional condition branches =>
    exact ⟨openingCondition :: (lexemesAll condition ++ closing :: lexemesAll branches),
      by simp [lexemes]⟩

/-- Every token belongs to a construct outside of all groups, or a group is closed behind it. -/
theorem exists_mem_or_closing_mem {cs : List Construct} {before after : List Lexeme} {l : Lexeme}
    (h : lexemesAll cs = before ++ l :: after) :
    (∃ c ∈ cs, l ∈ c.lexemes ∧ closing ∉ c.lexemes) ∨ closing ∈ l :: after := by
  induction cs generalizing before with
  | nil => simp at h
  | cons c cs ih =>
    rw [lexemesAll_cons] at h
    -- the token belongs to the first construct or to one behind it
    rcases List.append_eq_append_iff.1 h with ⟨middle, rfl, hcs⟩ | ⟨middle, hc, hafter⟩
    · exact (ih hcs).imp_left fun ⟨d, hd, hl⟩ => ⟨d, List.mem_cons_of_mem _ hd, hl⟩
    cases middle with
    | nil =>
      have hcs : lexemesAll cs = [] ++ l :: after := hafter.symm
      exact (ih hcs).imp_left fun ⟨d, hd, hl⟩ => ⟨d, List.mem_cons_of_mem _ hd, hl⟩
    | cons k middle =>
      obtain ⟨rfl, rfl⟩ := List.cons.inj hafter
      by_cases hclosing : closing ∈ c.lexemes
      · obtain ⟨init, hinit⟩ := exists_lexemes_eq_concat hclosing
        have hlast := congrArg List.getLast? (hc.symm.trans hinit)
        rw [List.getLast?_append, List.getLast?_concat, Option.or_eq_some_iff] at hlast
        have hlast := hlast.resolve_right fun ⟨hnone, _⟩ => by simp at hnone
        exact .inr (List.mem_append_left (lexemesAll cs) (List.mem_of_getLast? hlast))
      · exact .inl ⟨c, List.mem_cons_self, by simp [hc], hclosing⟩

/-- The atoms outside of all groups are nodes of the tree. -/
theorem mem_nodesAll_of_atom_mem {cs : List Construct} {a : Atom} {extra : Nat}
    (h : .atom a extra ∈ cs) (o : Options) (offset : Nat) : .atom a ∈ nodesAll o offset cs := by
  obtain ⟨before, after, rfl⟩ := List.append_of_mem h
  rw [nodesAll_append, nodesAll_cons]
  exact List.mem_append_right _ (List.mem_append_left _ (List.mem_singleton_self _))

/-- An atom of the tree that is no literal is one of the constructs outside of all groups. -/
theorem exists_atom_mem_of_mem_nodesAll {cs : List Construct} {a : Atom} {o : Options}
    {offset : Nat} (ha : a.kind ≠ .literal) (h : .atom a ∈ nodesAll o offset cs) :
    ∃ extra, .atom a extra ∈ cs := by
  induction cs generalizing offset with
  | nil => cases h
  | cons c cs ih =>
    rw [nodesAll_cons] at h
    rcases List.mem_append.1 h with hc | hcs
    · cases c with
      | atom b extra =>
        obtain rfl : a = b := by simpa [nodes] using hc
        exact ⟨extra, List.mem_cons_self⟩
      | run first more =>
        obtain ⟨literal, -, heq⟩ := List.mem_map.1 hc
        cases heq
        exact absurd rfl ha
      | _ => simp [nodes] at hc
    · exact (ih hcs).imp fun extra hmem => List.mem_cons_of_mem c hmem

/-- An atom that is no literal and belongs to no group is a node of the tree. -/
theorem mem_nodesAll_of_mem_lexemes {cs : List Construct} {c : Construct} {a : Atom} {width : Nat}
    (hc : c ∈ cs) (hl : ⟨.atom a, width⟩ ∈ c.lexemes) (hclosing : closing ∉ c.lexemes)
    (ha : a.kind ≠ .literal) (o : Options) (offset : Nat) : .atom a ∈ nodesAll o offset cs := by
  cases c with
  | atom b extra =>
    obtain ⟨rfl, -⟩ : a = b ∧ width = extra + 1 := by simpa [lexemes] using hl
    exact mem_nodesAll_of_atom_mem hc o offset
  | run first more =>
    obtain ⟨literal, -, heq⟩ := List.mem_map.1 hl
    cases heq
    exact absurd rfl ha
  | skipped comment extra => cases comment <;> simp [lexemes] at hl
  | bar | bare => simp [lexemes] at hl
  | group | conditional => exact absurd (by simp [lexemes]) hclosing

/-- Only a construct that closes a group opens one. -/
theorem openGroup_notMem_lexemes {c : Construct} (hclosing : closing ∉ c.lexemes)
    {kind : GroupKind} {width : Nat} : ⟨.openGroup kind, width⟩ ∉ c.lexemes := by
  cases c with
  | run first more => simp [lexemes, Literal.lexeme]
  | skipped comment extra => cases comment <;> simp [lexemes]
  | atom | bar | bare => simp [lexemes]
  | group | conditional => exact absurd (by simp [lexemes]) hclosing

/-- The last token of constructs opens no group. -/
theorem lexemesAll_ne_concat_openGroup (cs : List Construct) (before : List Lexeme)
    (kind : GroupKind) (width : Nat) : lexemesAll cs ≠ before ++ [⟨.openGroup kind, width⟩] := by
  intro h
  rcases exists_mem_or_closing_mem h with ⟨c, -, hl, hclosing⟩ | hmem
  · exact openGroup_notMem_lexemes hclosing hl
  · cases List.mem_singleton.1 hmem

/-- The tokens of a pattern are settled, if outside of all groups no class is without a bracket, and
no quantifier is malformed or a parenthesis is closed behind the pattern, and if it does not end
inside a comment. -/
theorem Forms.settledAll {cs : List Construct} {o : Options} {pattern v : Text}
    (h : Forms cs o pattern)
    (hclass : .atom (.charClass .unterminated) ∉ nodesAll o 0 cs)
    (hquantifier : .atom (.quantifier .unterminated) ∉ nodesAll o 0 cs ∨ v.head? = some ')')
    (hcomment : ¬Lexeme.EndsInComment o.ignoreWhitespace pattern) :
    Lexeme.SettledAll v [] (Lexeme.lex o.ignoreWhitespace pattern) := by
  intro before l after hlex
  rw [List.append_nil]
  have hcases := exists_mem_or_closing_mem (h.lexemesAll_eq.trans hlex)
  have hfault : l.token.isFault = false := by
    refine Assembly.isFault_of_run (Assembly.run_lexemesAll o { offset := 0 } cs h.proper) l ?_
    rw [h.lexemesAll_eq, hlex]
    simp
  obtain ⟨token, width⟩ := l
  -- a parenthesis closed at this token or behind it is closed behind it
  have hbehind (hne : token ≠ .close) (hmem : closing ∈ ⟨token, width⟩ :: after) :
      closing ∈ after := by
    rcases List.mem_cons.1 hmem with heq | hmem
    · cases heq
      exact absurd rfl hne
    · exact hmem
  refine Token.settled_of_isFault hfault ?_ ?_ ?_ ?_
  · rintro rfl
    -- nothing is left behind such a class, so no group is closed there
    obtain rfl : after = [] := Lexeme.eq_nil_of_unterminated hlex
    rcases hcases with ⟨c, hc, hl, hclosing⟩ | hmem
    · exact hclass (mem_nodesAll_of_mem_lexemes hc hl hclosing nofun o 0)
    · exact List.not_mem_nil (hbehind nofun hmem)
  · rintro rfl rfl
    exact hcomment ⟨⟨.comment, width⟩, by rw [hlex]; simp, rfl⟩
  · rintro list rfl rfl
    exact lexemesAll_ne_concat_openGroup cs before _ width (h.lexemesAll_eq.trans hlex)
  · rintro rfl
    rcases hcases with ⟨c, hc, hl, hclosing⟩ | hmem
    · exact .inr (hquantifier.resolve_left (absurd
        (mem_nodesAll_of_mem_lexemes hc hl hclosing nofun o 0)))
    · exact .inl ⟨closing, hbehind nofun hmem, rfl⟩

/-- A pattern keeps its tokens in front of a closing parenthesis, if outside of all groups no class
is without a bracket, and if the pattern does not end inside a comment. -/
theorem Forms.lex_append_closing {cs : List Construct} {o : Options} {pattern : Text}
    (h : Forms cs o pattern) (hclass : .atom (.charClass .unterminated) ∉ nodesAll o 0 cs)
    (hcomment : ¬Lexeme.EndsInComment o.ignoreWhitespace pattern) (t : Text) :
    Lexeme.lex o.ignoreWhitespace (pattern ++ ')' :: t) =
      lexemesAll cs ++ closing :: Lexeme.lex o.ignoreWhitespace t := by
  rw [Lexeme.lex_append (.inr rfl) (h.settledAll hclass (.inr rfl) hcomment), lex_closing,
    h.lexemesAll_eq]

end Construct

end RegexGloss
