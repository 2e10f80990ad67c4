import RegexGloss.Proofs.Construct.Settled
import RegexGloss.Proofs.Fault.Cause
import RegexGloss.Proofs.Token.Echo

/-!
# Closing the groups that are open

The fault of a pattern in which a group is not closed points at the innermost open parenthesis
(`Enclosure.innermost?`). A closing parenthesis behind the pattern closes that one. It is a token by
itself, or makes the settings that it follows a group without a body; in both cases the innermost
open parenthesis stands further to the front afterwards. So the groups can be closed one by one,
from the inside out. Main statement: `explain_append_close`.
-/

namespace RegexGloss

open Construct

/-! ## Tokens in front of a closing parenthesis -/

namespace Lexeme

variable {skipping : Bool} {t : Text} {before after : List Lexeme}

/-- A text ends inside a class that no bracket ends. -/
def EndsInClass (skipping : Bool) (t : Text) : Prop :=
  ∃ l ∈ (lex skipping t).getLast?, l.token = .atom (.charClass .unterminated)

/-- The first tokens of a text are settled in front of a closing parenthesis, if none of them is a
fault and if the last of them goes on to other tokens or is settled by the parenthesis alone. -/
theorem settledAll_close (hlex : lex skipping t = before ++ after)
    (hfault : ∀ l ∈ before, l.token.isFault = false)
    (hlast : after = [] → ∀ l ∈ before.getLast?, l.token.Settled False True) :
    SettledAll [')'] after before := by
  rintro first l rest rfl
  by_cases hrest : rest ++ after = []
  · obtain ⟨rfl, rfl⟩ := List.append_eq_nil_iff.1 hrest
    exact (hlast rfl l (by simp)).mono False.elim fun _ => .inr rfl
  · -- a class without a bracket would leave nothing behind it
    have hclass : l.token ≠ .atom (.charClass .unterminated) := by
      obtain ⟨token, width⟩ := l
      rintro rfl
      exact hrest (eq_nil_of_unterminated (by rw [hlex, List.append_assoc, List.cons_append]))
    exact Token.settled_of_isFault (hfault l (by simp)) hclass (fun _ => hrest)
      (fun _ _ => hrest) fun _ => .inr rfl

/-- A closing parenthesis is a token by itself, unless the text ends inside a class or a comment or
with the settings of a group. -/
theorem lex_append_close (hfault : ∀ l ∈ lex skipping t, l.token.isFault = false)
    (hclass : ¬EndsInClass skipping t) (hcomment : ¬EndsInComment skipping t)
    (hsettings : ∀ l ∈ (lex skipping t).getLast?, ∀ list, l.token ≠ .openGroup (.settings list)) :
    lex skipping (t ++ [')']) = lex skipping t ++ [closing] := by
  rw [lex_append (.inr rfl) (settledAll_close (List.append_nil _).symm hfault fun _ l hl => ?_),
    lex_closing, lex_nil]
  exact Token.settled_of_isFault (hfault l (List.mem_of_getLast? hl)) (fun h => hclass ⟨l, hl, h⟩)
    (fun h => hcomment ⟨l, hl, h⟩) (fun list h => hsettings l hl list h) fun _ => trivial

/-- A closing parenthesis makes the settings that it follows a group without a body. -/
theorem lex_append_close_of_settings {list : List Setting} {width : Nat}
    (hlex : lex skipping t = before ++ [⟨.openGroup (.settings list), width⟩])
    (hfault : ∀ l ∈ before, l.token.isFault = false) :
    lex skipping (t ++ [')']) = before ++ [⟨.bareGroup (.settings list), width + 1⟩] := by
  rw [lex_append_of_settledAll (.inr rfl) hlex (settledAll_close hlex hfault nofun)]
  -- the settings are all that is left of the text
  obtain ⟨c, u, hu, hread, hwidth⟩ := exists_read_of_lex_eq hlex
  obtain rfl : c = '(' := Token.eq_of_firstGlyph?_read (by rw [hread]; rfl)
  rw [Token.read_parenthesis] at hread hwidth
  have hrest := lex_drop hlex
  rw [hu, lex_cons, Token.read_parenthesis] at hrest
  have hlength : (Token.readOpening u).2 = u.length := by
    have hsum := sum_width_lex skipping (u.drop (Token.readOpening u).2)
    rw [(List.cons.inj hrest).2, List.length_drop] at hsum
    exact Nat.le_antisymm (Token.readOpening_snd_le u) (Nat.sub_eq_zero_iff_le.1 hsum.symm)
  have hopening := Token.readOpening_append_close (Prod.ext hread hlength) []
  dsimp only at hwidth
  rw [hu, List.cons_append, lex_cons, Token.read_parenthesis, hopening, ← hwidth, hlength,
    List.drop_eq_nil_of_le (by simp), lex_nil]

/-- A text ends inside a class or a comment only if its last token is one. -/
theorem not_endsIn_of_lex_eq {l : Lexeme} (hlex : lex skipping t = before ++ [l])
    (hclass : l.token ≠ .atom (.charClass .unterminated)) (hcomment : l.token ≠ .comment) :
    ¬EndsInClass skipping t ∧ ¬EndsInComment skipping t := by
  simp [EndsInClass, EndsInComment, hlex, hclass, hcomment]

end Lexeme

/-! ## Innermost groups -/

namespace Enclosure

variable {e : Enclosure} {cs : List Construct} {rest : List Lexeme} {pos : Nat}

/-- The place of the innermost open parenthesis. That of a condition is the third glyph of its
conditional. -/
def innermost? : Enclosure → Option Nat
  | none => .none
  | group outer before _ _ | branches outer before _ => some (outer.width + widthAll before)
  | condition outer before => some (outer.width + widthAll before + 2)

/-- The innermost open parenthesis is one of the glyphs up to the start of its group. -/
theorem lt_width_of_innermost? (h : e.innermost? = some pos) : pos < e.width := by
  cases e with
  | none => cases h
  | group outer before heading extra =>
    cases h
    rw [width_group]
    omega
  | condition outer before =>
    cases h
    rw [width_condition]
    omega
  | branches outer before test =>
    cases h
    rw [width_branches]
    omega

/-- Behind a closing parenthesis the innermost open parenthesis stands further to the front. -/
theorem innermost?_close_lt (h : e.innermost? = some pos) (cs : List Construct) :
    ∀ pos' ∈ (e.close cs).1.innermost?, pos' < pos := by
  intro pos' hpos'
  cases e with
  | none => cases h
  | group | branches =>
    cases h
    exact Nat.lt_add_right _ (lt_width_of_innermost? hpos')
  | condition outer before =>
    -- the conditional stays open, and its own parenthesis is the innermost one now
    cases h
    cases hpos'
    exact Nat.lt_add_of_pos_right Nat.two_pos

/-- Reading stops at an unclosed group at the end of a pattern, where the innermost open parenthesis
could be closed. -/
theorem Halts.of_unclosedGroup (h : e.Halts cs rest ⟨.unclosedGroup, pos⟩) :
    rest = [] ∧ e.innermost? = some pos ∧ e.CanClose cs := by
  cases h with
  | unclosedGroup | unclosedCondition => exact ⟨rfl, rfl, trivial⟩
  | unclosedBranches _ _ _ _ hcs => exact ⟨rfl, rfl, hcs⟩

/-- Where the last token opens a group with a heading, no constructs are inside that group. -/
theorem exists_eq_group {ls : List Lexeme} {kind : GroupKind} {width : Nat}
    (h : e.lexemes ++ lexemesAll cs = ls ++ [⟨.openGroup kind, width⟩]) :
    ∃ outer before extra, e = group outer before (some kind) extra ∧
      cs = [] ∧ outer.lexemes ++ lexemesAll before = ls ∧ width = extra + 1 := by
  -- the last token of constructs opens no group, so it belongs to the enclosure
  obtain ⟨he, rfl⟩ : e.lexemes = ls ++ [⟨.openGroup kind, width⟩] ∧ cs = [] := by
    rcases List.append_eq_append_iff.1 h with ⟨middle, -, hcs⟩ | ⟨middle, he, hcs⟩
    · exact absurd hcs (lexemesAll_ne_concat_openGroup cs middle kind width)
    rcases List.append_eq_singleton_iff.1 hcs.symm with ⟨-, hcs⟩ | ⟨rfl, hnil⟩
    · exact absurd hcs (lexemesAll_ne_concat_openGroup cs [] kind width)
    · exact ⟨he, lexemesAll_eq_nil_iff.1 hnil⟩
  cases e with
  | none => simp [lexemes] at he
  | group outer before heading extra =>
    obtain ⟨hls, hopening⟩ := List.append_inj' he rfl
    cases heading with
    | none => cases hopening
    | some heading =>
      cases hopening
      exact ⟨outer, before, extra, rfl, rfl, hls, rfl⟩
  | condition outer before => cases (List.append_inj' he rfl).2
  | branches outer before test =>
    rw [lexemes, ← List.cons_append, ← List.append_assoc] at he
    cases (List.append_inj' he rfl).2

/-! ## One closing parenthesis -/

variable {skipping : Bool} {p : Text} {o : Options}

/-- A closing parenthesis behind a pattern closes the innermost open group. What is open then has
its innermost parenthesis further to the front, and the pattern does not end inside a class or a
comment. -/
theorem Begins.exists_append_close (h : e.Begins cs [] (Lexeme.lex skipping p))
    (hcan : e.CanClose cs) (hpos : e.innermost? = some pos)
    (hclass : ¬Lexeme.EndsInClass skipping p) (hcomment : ¬Lexeme.EndsInComment skipping p) :
    ∃ (e' : Enclosure) (cs' : List Construct),
      e'.Begins cs' [] (Lexeme.lex skipping (p ++ [')'])) ∧ (∀ pos' ∈ e'.innermost?, pos' < pos) ∧
        ¬Lexeme.EndsInClass skipping (p ++ [')']) ∧ ¬Lexeme.EndsInComment skipping (p ++ [')']) := by
  have hfault := Assembly.isFault_of_run (h.run_eq {} { offset := 0 })
  have hlexemes := h.lexemes_eq
  rw [List.append_nil] at hlexemes
  by_cases hsettings : ∃ l ∈ (Lexeme.lex skipping p).getLast?, ∃ list,
      l.token = .openGroup (.settings list)
  · obtain ⟨⟨token, width⟩, hl, list, rfl⟩ := hsettings
    obtain ⟨before, hlex⟩ := List.getLast?_eq_some_iff.1 hl
    have hclosed := Lexeme.lex_append_close_of_settings hlex fun l hl =>
      hfault l (by rw [hlex]; exact List.mem_append_left _ hl)
    -- the innermost group has only its settings, and ends with them
    obtain ⟨outer, first, extra, rfl, rfl, rfl, rfl⟩ := exists_eq_group (hlexemes.trans hlex)
    refine ⟨outer, first ++ [.bare (.settings list) (extra + 1)], ⟨h.proper.1, ?_, ?_⟩,
      innermost?_close_lt hpos [], Lexeme.not_endsIn_of_lex_eq hclosed nofun nofun⟩
    · exact properAll_concat h.proper.2 trivial rfl
    · rw [hclosed]
      simp [lexemesAll_append, Construct.lexemes]
  · have hclosed := Lexeme.lex_append_close hfault hclass hcomment fun l hl list hlist =>
      hsettings ⟨l, hl, list, hlist⟩
    obtain ⟨hproper, hproperAll⟩ := proper_close h.proper h.properAll hcan
    refine ⟨(e.close cs).1, (e.close cs).2, ⟨hproper, hproperAll, ?_⟩, innermost?_close_lt hpos cs,
      Lexeme.not_endsIn_of_lex_eq hclosed nofun nofun⟩
    rw [hclosed, List.append_nil, lexemes_close hcan, hlexemes]

/-- A pattern that ends with open groups and constructs is explained if no group is open. Otherwise
it has a surplus bar, or its fault is at the innermost open parenthesis. -/
theorem Begins.explain_or (h : e.Begins cs [] (Lexeme.lex o.ignoreWhitespace p)) :
    (∃ x, explain p o = .ok x) ∨ (∃ bar, explain p o = .error ⟨.surplusBar, bar⟩) ∨
      ∃ pos ∈ e.innermost?, explain p o = .error ⟨.unclosedGroup, pos⟩ := by
  cases hfinish : ((e.assembly o { offset := 0 }).extend o cs).finish with
  | ok a =>
    obtain ⟨hframes, -⟩ := (Assembly.finish_eq_ok_iff _ _).1 hfinish
    obtain rfl := eq_none_of_frames_assembly hframes
    have hforms : Forms cs o p := ⟨h.properAll, by simpa [lexemes] using h.lexemes_eq⟩
    exact .inl ⟨_, explain_eq_ok_iff.2 ⟨cs, hforms, rfl⟩⟩
  | error halt =>
    obtain ⟨f, hhalts, -⟩ := Assembly.exists_halts_of_finish rfl hfinish
    have hexplain := explain_eq_error_iff.2 ⟨e, cs, [], h, hhalts⟩
    -- no token is left, so only open groups and surplus bars can halt reading
    cases hhalts with
    | surplusBar => exact .inr (.inl ⟨_, hexplain⟩)
    | unclosedGroup | unclosedCondition | unclosedBranches =>
      exact .inr (.inr ⟨_, rfl, hexplain⟩)

end Enclosure

section

variable {p : Text} {o : Options} {pos : Nat}

/-- A closing parenthesis behind a pattern in which a group is not closed leads to an explanation,
to a surplus bar or to a group that is not closed further to the front. It ends the pattern outside
of classes and comments. -/
theorem explain_concat_close (h : explain p o = .error ⟨.unclosedGroup, pos⟩)
    (hclass : ¬Lexeme.EndsInClass o.ignoreWhitespace p)
    (hcomment : ¬Lexeme.EndsInComment o.ignoreWhitespace p) :
    ((∃ x, explain (p ++ [')']) o = .ok x) ∨
      (∃ bar, explain (p ++ [')']) o = .error ⟨.surplusBar, bar⟩) ∨
        ∃ pos' < pos, explain (p ++ [')']) o = .error ⟨.unclosedGroup, pos'⟩) ∧
      ¬Lexeme.EndsInClass o.ignoreWhitespace (p ++ [')']) ∧
        ¬Lexeme.EndsInComment o.ignoreWhitespace (p ++ [')']) := by
  obtain ⟨e, cs, rest, hbegins, hhalts⟩ := explain_eq_error_iff.1 h
  obtain ⟨rfl, hpos, hcan⟩ := hhalts.of_unclosedGroup
  obtain ⟨e', cs', hbegins', hlt, hends⟩ :=
    hbegins.exists_append_close hcan hpos hclass hcomment
  refine ⟨?_, hends⟩
  exact hbegins'.explain_or.imp_right fun h => h.imp_right fun ⟨pos', hpos', hexplain⟩ =>
    ⟨pos', hlt pos' hpos', hexplain⟩

/-- No more closing parentheses than there are opening ones up to the fault lead to an explanation
or to a surplus bar. -/
theorem exists_replicate_close (h : explain p o = .error ⟨.unclosedGroup, pos⟩)
    (hclass : ¬Lexeme.EndsInClass o.ignoreWhitespace p)
    (hcomment : ¬Lexeme.EndsInComment o.ignoreWhitespace p) :
    ∃ n ≤ (p.take (pos + 1)).count '(',
      (∃ x, explain (p ++ List.replicate n ')') o = .ok x) ∨
        ∃ bar, explain (p ++ List.replicate n ')') o = .error ⟨.surplusBar, bar⟩ := by
  -- by induction on the place of the fault, which each closing parenthesis moves to the front
  induction pos using Nat.strongRecOn generalizing p with
  | ind pos ih =>
    obtain ⟨e, cs, rest, hbegins, hhalts⟩ := explain_eq_error_iff.1 h
    have hglyph : p[pos]? = some '(' := hhalts.shows hbegins
    have hlt : pos < p.length := (List.getElem?_eq_some_iff.1 hglyph).1
    -- the parenthesis that is closed first is one of those counted
    have hcount : (p.take (pos + 1)).count '(' = (p.take pos).count '(' + 1 := by
      rw [List.take_add_one, hglyph, Option.toList_some, List.count_append,
        List.count_singleton_self]
    obtain ⟨hclosed | hclosed | ⟨pos', hpos', hclosed⟩, hclass', hcomment'⟩ :=
      explain_concat_close h hclass hcomment
    · exact ⟨1, by omega, .inl hclosed⟩
    · exact ⟨1, by omega, .inr hclosed⟩
    · obtain ⟨n, hn, hresult⟩ := ih pos' hpos' hclosed hclass' hcomment'
      refine ⟨n + 1, ?_, ?_⟩
      · rw [List.take_append_of_le_length (by omega)] at hn
        have hle : (p.take (pos' + 1)).count '(' ≤ (p.take pos).count '(' :=
          (List.take_prefix_take_left hpos').sublist.count_le '('
        omega
      · rwa [List.append_assoc, List.singleton_append, ← List.replicate_succ] at hresult

end

/-- Where a group is not closed, the fault is at the innermost open parenthesis. If the pattern does
not end inside a class or a comment, a closing parenthesis behind it leads to an explanation, to a
surplus bar or to a group that is not closed further to the front. So with no more closing
parentheses than the pattern has opening ones, it is explained or has a surplus bar. -/
theorem explain_append_close {p : Text} {o : Options} {pos : Nat}
    (h : explain p o = .error ⟨.unclosedGroup, pos⟩)
    (hclass : ¬Lexeme.EndsInClass o.ignoreWhitespace p)
    (hcomment : ¬Lexeme.EndsInComment o.ignoreWhitespace p) :
    (∃ (e : Enclosure) (cs : List Construct),
      e.Begins cs [] (Lexeme.lex o.ignoreWhitespace p) ∧ e.innermost? = some pos ∧
        p[pos]? = some '(') ∧
      ((∃ x, explain (p ++ [')']) o = .ok x) ∨
        (∃ bar, explain (p ++ [')']) o = .error ⟨.surplusBar, bar⟩) ∨
          ∃ pos' < pos, explain (p ++ [')']) o = .error ⟨.unclosedGroup, pos'⟩) ∧
      ∃ n ≤ p.count '(',
        (∃ x, explain (p ++ List.replicate n ')') o = .ok x) ∨
          ∃ bar, explain (p ++ List.replicate n ')') o = .error ⟨.surplusBar, bar⟩ := by
  refine ⟨?_, (explain_concat_close h hclass hcomment).1, ?_⟩
  · obtain ⟨e, cs, rest, hbegins, hhalts⟩ := explain_eq_error_iff.1 h
    obtain ⟨rfl, hpos, -⟩ := hhalts.of_unclosedGroup
    exact ⟨e, cs, hbegins, hpos, hhalts.shows hbegins⟩
  · obtain ⟨n, hn, hresult⟩ := exists_replicate_close h hclass hcomment
    exact ⟨n, Nat.le_trans hn ((List.take_sublist _ p).count_le '('), hresult⟩

/-- The settings at the end of the pattern become a group without a body, and the conditional is
closed after them. -/
theorem explain_append_close_settings :
    explain ['(', '?', '(', 'a', ')', '(', '?', 'i', ':'] {} = .error ⟨.unclosedGroup, 5⟩ ∧
      (∃ pos < 5, explain ['(', '?', '(', 'a', ')', '(', '?', 'i', ':', ')'] {} =
        .error ⟨.unclosedGroup, pos⟩) ∧
      ∃ n ≤ 3, (∃ x, explain (['(', '?', '(', 'a', ')', '(', '?', 'i', ':'] ++
          List.replicate n ')') {} = .ok x) ∨
        ∃ bar, explain (['(', '?', '(', 'a', ')', '(', '?', 'i', ':'] ++
          List.replicate n ')') {} = .error ⟨.surplusBar, bar⟩ := by
  have h : explain ['(', '?', '(', 'a', ')', '(', '?', 'i', ':'] {} =
      .error ⟨.unclosedGroup, 5⟩ := rfl
  have hclass : ¬Lexeme.EndsInClass false ['(', '?', '(', 'a', ')', '(', '?', 'i', ':'] := by
    rintro ⟨l, hl, hclass⟩
    cases hl
    cases hclass
  obtain ⟨-, hconcat, hreplicate⟩ :=
    explain_append_close h hclass (Lexeme.not_endsInComment _)
  have hresult : explain ['(', '?', '(', 'a', ')', '(', '?', 'i', ':', ')'] {} =
      .error ⟨.unclosedGroup, 0⟩ := rfl
  refine ⟨h, ?_, hreplicate⟩
  rcases hconcat with ⟨x, hx⟩ | ⟨bar, hbar⟩ | hunclosed
  · cases hx.symm.trans hresult
  · cases hbar.symm.trans hresult
  · exact hunclosed

end RegexGloss
