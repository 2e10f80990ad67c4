import RegexGloss.Proofs.Opener.Forms
import RegexGloss.Proofs.Spelling.Basic
import RegexGloss.Proofs.Token.Shape

/-!
# What tokens are made of

What is kept of a token is something that can be written: names are words, counts are digits, no
bracket is a member of a class, and nothing is switched on behind what is switched off. Only a class
without its bracket and a quantifier without its brace are atoms that cannot be written. No opener
is that of a plain group, and only settings are groups without a body.

Main statement: `Lexeme.sound_of_mem_lex`.
-/

namespace RegexGloss

open Text

/-! ## Openers -/

namespace Opener

variable {t : Text} {o : Opener}

theorem isName_of_wordUpTo? {close : Char} (hclose : isWord close = false) {name rest : Text}
    (h : wordUpTo? close t = some (name, rest)) : name.IsName :=
  have hname := (wordUpTo?_eq_some_iff hclose _ _ _).1 h
  ⟨hname.1, hname.2.1⟩

/-- Behind a hyphen everything is switched off. -/
theorem enabled_of_mem_settings_false {s : Setting} (h : s ∈ settings false t) :
    s.enabled = false := by
  induction t with
  | nil => cases h
  | cons c t ih =>
    rw [settings] at h
    cases hc : Flag.ofLetter? c with
    | none =>
      rw [hc] at h
      exact ih h
    | some flag =>
      rw [hc] at h
      rcases List.mem_cons.1 h with rfl | h
      · rfl
      · exact ih h

/-- Nothing is switched on behind what is switched off. -/
theorem enabled_of_mem_dropWhile_settings {s : Setting}
    (h : s ∈ (settings true t).dropWhile (·.enabled)) : s.enabled = false := by
  induction t with
  | nil => cases h
  | cons c t ih =>
    rw [settings] at h
    cases hc : Flag.ofLetter? c with
    | none =>
      rw [hc] at h
      exact enabled_of_mem_settings_false ((List.dropWhile_sublist _).mem h)
    | some flag =>
      rw [hc] at h
      exact ih h

/-- A group with an opener is not a plain one and has what its kind needs. Only settings need no
body. -/
theorem valid_of_read? (h : read? t = some o) :
    o.kind.Valid ∧ o.kind ≠ .capture ∧ (o.hasBody = false → ∃ list, o.kind = .settings list) := by
  obtain ⟨f, hf⟩ := (read?_eq_some_iff _ _).1 h
  cases f with
  | named =>
    obtain ⟨close, rest, hquote, name, rest', hname, rfl⟩ := (named?_eq_some_iff _ _).1 hf
    exact ⟨isName_of_wordUpTo? (isWord_of_quoted?_eq_some hquote) hname, nofun, nofun⟩
  | balancing =>
    obtain ⟨close, rest, hquote, first, rest', hfirst, second, rest'', hsecond, rfl⟩ :=
      (balancing?_eq_some_iff _ _).1 hf
    exact ⟨⟨isName_of_wordUpTo? rfl hfirst,
      isName_of_wordUpTo? (isWord_of_quoted?_eq_some hquote) hsecond⟩, nofun, nofun⟩
  | settings =>
    obtain ⟨u, -, hne, width, hasBody, -, rfl⟩ := (settings?_eq_some_iff _ _).1 hf
    exact ⟨⟨hne, fun s hs => enabled_of_mem_dropWhile_settings hs⟩, nofun, fun _ => ⟨_, rfl⟩⟩
  | nonCapturing | lookaround | nonBacktracking | conditional =>
    cases Form.fixed_of_read? hf nofun nofun nofun <;> exact ⟨trivial, nofun, nofun⟩

end Opener

/-! ## Atoms -/

/-- The members of a class are those before its first bracket, and a caret in front would not have
been one of them. -/
theorem CharClass.valid_read (t : Text) : (read t).1.Valid ∨ (read t).1 = .unterminated := by
  have hbracket (u : Text) : ']' ∉ u.takeWhile (· != ']') := by
    intro h
    have hne := List.all_eq_true.1 List.all_takeWhile _ h
    simp at hne
  unfold read
  split
  · dsimp only [readMembers]
    split
    · exact .inl ⟨hbracket _, nofun⟩
    · exact .inr rfl
  · rename_i hcaret
    dsimp only [readMembers]
    split
    · refine .inl ⟨hbracket _, fun _ hhead => ?_⟩
      cases t with
      | nil => cases hhead
      | cons c t =>
        have hc : c = '^' := by
          rw [List.takeWhile_cons] at hhead
          split at hhead
          · exact Option.some.inj hhead
          · cases hhead
        exact hcaret t (by rw [hc])
    · exact .inr rfl

theorem Text.isDigit_of_mem_takeWhile {t : Text} {c : Char} (h : c ∈ t.takeWhile Char.isDigit) :
    c.isDigit = true :=
  List.all_eq_true.1 List.all_takeWhile c h

namespace Quantifier

/-- Counts are made of digits. Only the first one has to be there. -/
theorem Counts.valid_bound_read {t : Text} (h : (Counts.read t).least ≠ []) :
    (Counts.read t).bound.Valid := by
  have hleast : (Counts.read t).least = t.takeWhile Char.isDigit := by
    unfold Counts.read
    split <;> rfl
  rw [hleast] at h
  have hcount : Text.IsCount (t.takeWhile Char.isDigit) := ⟨h, fun c => isDigit_of_mem_takeWhile⟩
  unfold Counts.read
  split
  · rename_i u hu
    cases hmost : u.takeWhile Char.isDigit with
    | nil => exact hcount
    | cons c most =>
      refine ⟨hcount, List.cons_ne_nil c most, fun a ha => ?_⟩
      rw [← hmost] at ha
      exact isDigit_of_mem_takeWhile ha
  · exact hcount

theorem valid_read (t : Text) : (read t).1.Valid ∨ (read t).1 = .unterminated := by
  dsimp only [read]
  split
  · rename_i h
    exact .inl (Counts.valid_bound_read h.1)
  · exact .inr rfl

end Quantifier

namespace Escape

theorem length_of_take?_eq_some {count : Nat} {t digits : Text} (h : take? count t = some digits) :
    digits.length = count := by
  unfold take? at h
  split at h
  · rename_i hlength
    cases h
    exact hlength
  · cases h

/-- A shorthand is one of the special atoms. -/
theorem valid_atom_shorthand {c : Char} {description : Text}
    (h : shorthand? c = some description) : (shorthand description).atom.Valid :=
  ⟨.shorthand c, by rw [Special.valid_shorthand, h, Option.isSome_some],
    by rw [Special.describe_shorthand, h, Option.getD_some]⟩

theorem valid_atom_of_readGlyph? {c : Char} {t : Text} {escape : Escape} {width : Nat}
    (h : readGlyph? c t = some (escape, width)) : escape.atom.Valid := by
  unfold readGlyph? at h
  split at h
  · cases h
  · cases h
    exact ⟨.control _, trivial, rfl⟩
  · obtain ⟨digits, hdigits, he⟩ := Option.map_eq_some_iff.1 h
    cases he
    exact ⟨.unicode digits, length_of_take?_eq_some hdigits, rfl⟩
  · obtain ⟨digits, hdigits, he⟩ := Option.map_eq_some_iff.1 h
    cases he
    exact ⟨.hex digits, length_of_take?_eq_some hdigits, rfl⟩
  · cases h
    exact .inl rfl
  -- any other glyph is a shorthand or stands for itself
  · have hspace : c ≠ ' ' := ‹c = ' ' → False›
    cases h
    cases hs : shorthand? c with
    | some description => exact valid_atom_shorthand hs
    | none => exact .inr ⟨c, hspace, rfl⟩

theorem valid_atom_of_read? {t : Text} {escape : Escape} {width : Nat}
    (h : read? t = some (escape, width)) : escape.atom.Valid := by
  unfold read? at h
  split at h
  · rename_i name _ hname
    cases h
    obtain ⟨u, -, name, rest, hword, hwidth⟩ := (backreference?_eq_some_iff _ _).1 hname
    cases hwidth
    exact ⟨.backreference _, Opener.isName_of_wordUpTo? rfl hword, rfl⟩
  · split at h
    · cases h
    · exact valid_atom_of_readGlyph? h

end Escape

/-! ## Tokens -/

/-- An atom is described by a visible text, and it can be written unless the pattern does not close
it. -/
def Atom.Sound (a : Atom) : Prop :=
  a.describe.isVisible = true ∧
    (a.Valid ∨ a = .charClass .unterminated ∨ a = .quantifier .unterminated)

/-- The atom of a token is sound. An opener is one of a group, and what has no body is settings. -/
def Token.Sound : Token → Prop
  | atom a => a.Sound
  | openGroup kind => kind.Valid ∧ kind ≠ .capture ∧ kind ≠ .conditional
  | bareGroup kind => ∃ list, kind = .settings list ∧ Setting.ValidAll list
  | _ => True

namespace Token

theorem sound_readOpening (t : Text) : (readOpening t).1.Sound := by
  unfold readOpening
  split
  · split
    · trivial
    · rename_i hconditional hread
      obtain ⟨hvalid, hcapture, -⟩ := Opener.valid_of_read? hread
      exact ⟨hvalid, hcapture, hconditional⟩
    · rename_i hread
      obtain ⟨hvalid, -, hbody⟩ := Opener.valid_of_read? hread
      obtain ⟨list, hlist⟩ := hbody rfl
      exact ⟨list, hlist, by rwa [hlist] at hvalid⟩
    · trivial
  · trivial

theorem sound_atom {a : Atom} (hvisible : a.describe.isVisible = true) (h : a.Valid) :
    (atom a).Sound :=
  ⟨hvisible, .inl h⟩

theorem sound_readRepeat (r : Repetition) (t : Text) : (readRepeat r.describe t).1.Sound := by
  have hvisible : r.describe.isVisible = true := by cases r <;> rfl
  unfold readRepeat
  split
  · exact sound_atom (isVisible_append hvisible lazyMark) ⟨.repetition r true, trivial, rfl⟩
  · exact sound_atom hvisible ⟨.repetition r false, trivial, List.append_nil _⟩

theorem sound_readGlyph (c : Char) (t : Text) : (readGlyph c t).1.Sound := by
  unfold readGlyph
  split
  · exact sound_readOpening t
  · trivial
  · refine ⟨CharClass.isVisible_describe _, ?_⟩
    rcases CharClass.valid_read t with h | h
    · exact .inl h
    · exact .inr (.inl (congrArg Atom.charClass h))
  · split
    · rename_i h
      exact sound_atom (Escape.isVisible_of_read?_eq_some h) (Escape.valid_atom_of_read? h)
    · trivial
  · refine ⟨Quantifier.isVisible_describe _, ?_⟩
    rcases Quantifier.valid_read t with h | h
    · exact .inl h
    · exact .inr (.inr (congrArg Atom.quantifier h))
  · trivial
  · exact sound_atom rfl ⟨.space, trivial, rfl⟩
  · exact sound_atom rfl ⟨.stringEnd, trivial, rfl⟩
  · exact sound_atom rfl ⟨.stringStart, trivial, rfl⟩
  · exact sound_atom rfl ⟨.anyGlyph, trivial, rfl⟩
  · exact sound_readRepeat .zeroOrMore t
  · exact sound_readRepeat .oneOrMore t
  · exact sound_readRepeat .optional t
  · rename_i hspace _ _ _ _ _ _
    exact sound_atom (isVisible_singleton hspace) (.inr ⟨c, hspace, rfl⟩)

/-- What is kept of a token that is read can be written. -/
theorem sound_read (skipping : Bool) (c : Char) (t : Text) : (read skipping c t).1.Sound := by
  unfold read
  split
  · trivial
  · split
    · trivial
    · exact sound_readGlyph c t

end Token

/-- What is kept of the tokens of a text can be written. -/
theorem Lexeme.sound_of_mem_lex {skipping : Bool} {t : Text} {l : Lexeme}
    (h : l ∈ lex skipping t) : l.token.Sound := by
  obtain ⟨c, u, rfl⟩ := exists_read_of_mem_lex h
  exact Token.sound_read skipping c u

end RegexGloss
