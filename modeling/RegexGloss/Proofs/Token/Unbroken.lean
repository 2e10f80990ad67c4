import RegexGloss.Proofs.Token.Glyphs
import RegexGloss.Proofs.Token.Valid
import RegexGloss.Proofs.Tree.Lines

/-!
# Tokens without line ends

The glyphs that a token keeps are glyphs of the pattern, so the tokens of a pattern without line
ends have none either (`Lexeme.unbroken_of_mem_lex`). Counts and names are digits and word glyphs in
any pattern.
-/

namespace RegexGloss

open Text

/-! ## Texts -/

theorem Text.Unbroken.of_subset {s t : Text} (h : t.Unbroken) (hs : s ⊆ t) : s.Unbroken := by
  intro c hc
  exact h c (hs hc)

/-- No word glyph belongs to a line end. -/
theorem Text.IsName.unbroken {name : Text} (h : name.IsName) : name.Unbroken := by
  intro c hc
  have hword := h.2 c hc
  constructor
  · rintro rfl
    exact absurd hword (by decide)
  · rintro rfl
    exact absurd hword (by decide)

/-- No digit belongs to a line end. -/
theorem Text.IsCount.unbroken {count : Text} (h : count.IsCount) : count.Unbroken := by
  intro c hc
  have hdigit := h.2 c hc
  constructor
  · rintro rfl
    exact absurd hdigit (by decide)
  · rintro rfl
    exact absurd hdigit (by decide)

/-! ## Groups and atoms -/

theorem GroupKind.Valid.unbroken {k : GroupKind} (h : k.Valid) : k.Unbroken := by
  cases k with
  | named name => exact IsName.unbroken h
  | balancing first second => exact ⟨h.1.unbroken, h.2.unbroken⟩
  | _ => trivial

theorem Quantifier.unbroken_read (t : Text) : (read t).1.Unbroken := by
  rcases valid_read t with h | h
  · generalize (read t).1 = q at h
    rcases q with ⟨_ | _ | _, lazy⟩ | _
    · exact IsCount.unbroken h
    · exact IsCount.unbroken h
    · exact ⟨h.1.unbroken, h.2.unbroken⟩
    · trivial
  · rw [h]
    trivial

theorem CharClass.unbroken_read {t : Text} (h : t.Unbroken) : (read t).1.Unbroken := by
  have hmembers {negated : Bool} {u : Text} (hu : u.Unbroken) :
      (readMembers negated u).1.Unbroken := by
    dsimp only [readMembers]
    split
    · exact hu.of_subset (List.takeWhile_sublist _).subset
    · trivial
  unfold read
  split
  · exact hmembers (h.of_subset (List.subset_cons_self _ _))
  · exact hmembers h

namespace Escape

theorem subset_of_take?_eq_some {count : Nat} {t digits : Text} (h : take? count t = some digits) :
    digits ⊆ t := by
  unfold take? at h
  split at h
  · cases h
    exact List.take_subset _ _
  · cases h

/-- A description that is no glyph of the pattern has no line ends. -/
theorem unbroken_of_shorthand? {c : Char} {description : Text}
    (h : shorthand? c = some description) : description.Unbroken := by
  unfold shorthand? at h
  split at h <;> cases h <;> decide +kernel

/-- An escape keeps glyphs that are read, behind a label. -/
theorem unbroken_of_readGlyph? {c : Char} {t : Text} {escape : Escape} {width : Nat}
    (hc : c ≠ '\r' ∧ c ≠ '\n') (ht : t.Unbroken) (h : readGlyph? c t = some (escape, width)) :
    escape.atom.describe.Unbroken := by
  unfold readGlyph? at h
  split at h
  · cases h
  · rename_i glyph _
    cases h
    have hlabel : Unbroken "CTRL-".toList := by decide +kernel
    exact hlabel.append (List.forall_mem_singleton.2 (ht glyph List.mem_cons_self))
  · obtain ⟨digits, hdigits, he⟩ := Option.map_eq_some_iff.1 h
    cases he
    have hlabel : Unbroken "Unicode ".toList := by decide +kernel
    exact hlabel.append (ht.of_subset (subset_of_take?_eq_some hdigits))
  · obtain ⟨digits, hdigits, he⟩ := Option.map_eq_some_iff.1 h
    cases he
    have hlabel : Unbroken "Hex ".toList := by decide +kernel
    exact hlabel.append (ht.of_subset (subset_of_take?_eq_some hdigits))
  · cases h
    decide +kernel
  · cases h
    cases hs : shorthand? c with
    | some description => exact unbroken_of_shorthand? hs
    | none => exact List.forall_mem_singleton.2 hc

theorem unbroken_of_read? {t : Text} {escape : Escape} {width : Nat} (ht : t.Unbroken)
    (h : read? t = some (escape, width)) : escape.atom.describe.Unbroken := by
  unfold read? at h
  split at h
  · rename_i name _ hname
    cases h
    obtain ⟨u, -, name, rest, hword, hwidth⟩ := (backreference?_eq_some_iff _ _).1 hname
    cases hwidth
    have hlabel : Unbroken "Backreference to match: ".toList := by decide +kernel
    exact hlabel.append (Opener.isName_of_wordUpTo? rfl hword).unbroken
  · split at h
    · cases h
    · obtain ⟨hc, ht⟩ := List.forall_mem_cons.1 ht
      exact unbroken_of_readGlyph? hc ht h

/-- An escape is a glyph that stands for itself or has a description of its own. -/
theorem unbroken_atom {escape : Escape} (h : escape.atom.describe.Unbroken)
    (hvisible : escape.atom.describe.isVisible = true) : escape.atom.Unbroken := by
  cases escape with
  | space | literal glyph => exact h
  | _ => exact ⟨h, ne_nil_of_isVisible hvisible⟩

end Escape

/-! ## Tokens -/

namespace Token

/-- The texts that a token keeps have no line ends. -/
def Unbroken : Token → Prop
  | atom a => a.Unbroken
  | openGroup kind | bareGroup kind => kind.Unbroken
  | _ => True

theorem unbroken_readOpening (t : Text) : (readOpening t).1.Unbroken := by
  unfold readOpening
  split
  · split
    · trivial
    · rename_i hread
      exact (Opener.valid_of_read? hread).1.unbroken
    · rename_i hread
      exact (Opener.valid_of_read? hread).1.unbroken
    · trivial
  · trivial

theorem unbroken_readRepeat {description : Text} (h : description.Unbroken)
    (hne : description ≠ []) (t : Text) : (readRepeat description t).1.Unbroken := by
  have hlazy : lazyMark.Unbroken := by decide +kernel
  unfold readRepeat
  split
  · exact ⟨h.append hlazy, List.append_ne_nil_of_left_ne_nil hne _⟩
  · exact ⟨h, hne⟩

theorem unbroken_readGlyph {c : Char} {t : Text} (h : Text.Unbroken (c :: t)) :
    (readGlyph c t).1.Unbroken := by
  obtain ⟨hc, ht⟩ := List.forall_mem_cons.1 h
  have hspecial {text : Text} (hne : text ≠ []) (htext : text.Unbroken) :
      (atom (.special text)).Unbroken := ⟨htext, hne⟩
  unfold readGlyph
  split
  · exact unbroken_readOpening t
  · trivial
  · exact CharClass.unbroken_read ht
  · split
    · rename_i hread
      exact Escape.unbroken_atom (Escape.unbroken_of_read? ht hread)
        (Escape.isVisible_of_read?_eq_some hread)
    · trivial
  · exact Quantifier.unbroken_read t
  · trivial
  -- a space and the anchors
  iterate 4 exact hspecial (ne_nil_of_isVisible rfl) (by decide +kernel)
  -- the quantifiers of one glyph
  iterate 3 exact unbroken_readRepeat (by decide +kernel) (ne_nil_of_isVisible rfl) t
  · exact List.forall_mem_singleton.2 hc

/-- The texts that a token keeps have no line ends but those of the glyphs it is read from. -/
theorem unbroken_read (skipping : Bool) {c : Char} {t : Text} (h : Text.Unbroken (c :: t)) :
    (read skipping c t).1.Unbroken := by
  unfold read
  split
  · trivial
  · split
    · trivial
    · exact unbroken_readGlyph h

end Token

/-- The tokens of a text without line ends have none. -/
theorem Lexeme.unbroken_of_mem_lex {skipping : Bool} {t : Text} {l : Lexeme} (ht : t.Unbroken)
    (h : l ∈ lex skipping t) : l.token.Unbroken := by
  obtain ⟨before, after, hlex⟩ := List.append_of_mem h
  obtain ⟨c, u, hdrop, hread, -⟩ := exists_read_of_lex_eq hlex
  rw [← hread]
  apply Token.unbroken_read
  rw [← hdrop]
  exact ht.of_subset (List.drop_subset _ _)

end RegexGloss
