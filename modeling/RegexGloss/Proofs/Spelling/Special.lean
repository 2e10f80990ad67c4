import RegexGloss.Proofs.Token.Locality

/-!
# How special atoms are written

A special atom is known by its description only. `Special` lists what such a description can say,
and how this is written in a pattern (`Special.spell`). From a description the special can be found
again (`Special.exists_ofDescription?_describe`), and its glyphs are read as the atom with that
description, unless a `?` behind a greedy repetition makes it lazy (`Special.reads_spell`).
-/

namespace RegexGloss

open Text

/-! ## Texts that are read as one token -/

/-- The glyphs `s` are read as a token where the text goes on with `t`. -/
def Token.Reads (token : Token) (s t : Text) : Prop :=
  ∃ c u, s = c :: u ∧ readGlyph c (u ++ t) = (token, u.length)

theorem Token.reads_cons {token : Token} {c : Char} {u t : Text}
    (h : readGlyph c (u ++ t) = (token, u.length)) : token.Reads (c :: u) t :=
  ⟨c, u, rfl, h⟩

/-- Glyphs that are read as a token are one, and what follows is cut into tokens by itself. -/
theorem Token.Reads.lex_eq {token : Token} {s t : Text} (h : token.Reads s t) :
    Lexeme.lex false (s ++ t) = ⟨token, s.length⟩ :: Lexeme.lex false t := by
  obtain ⟨c, u, rfl, hread⟩ := h
  have hread : read false c (u ++ t) = (token, u.length) := hread
  rw [List.cons_append, Lexeme.lex_cons, hread, List.drop_left, List.length_cons]

/-! ## Specials -/

/-- A name of a capture: one or more word glyphs. -/
def Text.IsName (name : Text) : Prop := name ≠ [] ∧ ∀ c ∈ name, isWord c = true

instance (name : Text) : Decidable name.IsName :=
  inferInstanceAs (Decidable (name ≠ [] ∧ ∀ c ∈ name, isWord c = true))

/-- A name is read up to the glyph that closes it. -/
theorem Text.IsName.wordUpTo?_eq {name : Text} (h : name.IsName) {close : Char}
    (hclose : isWord close = false) (t : Text) :
    Opener.wordUpTo? close (name ++ close :: t) = some (name, t) :=
  (Opener.wordUpTo?_eq_some_iff hclose _ _ _).2 ⟨h.1, h.2, rfl⟩

/-- A quantifier of one glyph. -/
inductive Repetition where
  /-- Zero or more times. -/
  | zeroOrMore
  /-- One or more times. -/
  | oneOrMore
  /-- Zero or one time. -/
  | optional
  deriving DecidableEq, Repr

/-- The glyph of a repetition. -/
def Repetition.glyph : Repetition → Char
  | zeroOrMore => '*'
  | oneOrMore => '+'
  | optional => '?'

/-- How an explanation describes a repetition. -/
def Repetition.describe : Repetition → Text
  | zeroOrMore => "* (zero or more times)".toList
  | oneOrMore => "+ (one or more times)".toList
  | optional => "? (zero or one time)".toList

/-- What a special atom stands for. -/
inductive Special where
  /-- A space. -/
  | space
  /-- The end of the string. -/
  | stringEnd
  /-- The start of the string. -/
  | stringStart
  /-- Any character. -/
  | anyGlyph
  /-- A quantifier of one glyph; a lazy one asks for the shortest match. -/
  | repetition (glyph : Repetition) (lazy : Bool)
  /-- A letter that is a shorthand. -/
  | shorthand (letter : Char)
  /-- A control character. -/
  | control (glyph : Char)
  /-- A character by its code in four digits. -/
  | unicode (digits : Text)
  /-- A character by its code in two digits. -/
  | hex (digits : Text)
  /-- What the capture of this name matched. -/
  | backreference (name : Text)
  deriving DecidableEq, Repr

namespace Special

/-- How an explanation describes a special atom. -/
def describe : Special → Text
  | space => spaceMark
  | stringEnd => "$ (anchor to end of string)".toList
  | stringStart => "^ (anchor to start of string)".toList
  | anyGlyph => ". (any character)".toList
  | repetition r lazy => r.describe ++ if lazy then lazyMark else []
  | shorthand letter => (Escape.shorthand? letter).getD []
  | control glyph => "CTRL-".toList ++ [glyph]
  | unicode digits => "Unicode ".toList ++ digits
  | hex digits => "Hex ".toList ++ digits
  | backreference name => "Backreference to match: ".toList ++ name

/-- How a special atom is written. -/
def spell : Special → Text
  | space => [' ']
  | stringEnd => ['$']
  | stringStart => ['^']
  | anyGlyph => ['.']
  | repetition r lazy => r.glyph :: if lazy then ['?'] else []
  | shorthand letter => ['\\', letter]
  | control glyph => ['\\', 'c', glyph]
  | unicode digits => '\\' :: 'u' :: digits
  | hex digits => '\\' :: 'x' :: digits
  | backreference name => '\\' :: 'k' :: '<' :: (name ++ ['>'])

/-- A letter has to be a shorthand, a code has to have all its digits, and a name has to be one. The
digits may be any glyphs. -/
def Valid : Special → Prop
  | shorthand letter => (Escape.shorthand? letter).isSome
  | unicode digits => digits.length = 4
  | hex digits => digits.length = 2
  | backreference name => name.IsName
  | _ => True

instance : DecidablePred Valid
  | shorthand letter => inferInstanceAs (Decidable ((Escape.shorthand? letter).isSome = true))
  | unicode digits => inferInstanceAs (Decidable (digits.length = 4))
  | hex digits => inferInstanceAs (Decidable (digits.length = 2))
  | backreference name => inferInstanceAs (Decidable name.IsName)
  | space | stringEnd | stringStart | anyGlyph | repetition _ _ | control _ => .isTrue trivial

/-- Whether a `?` behind the glyphs of a special atom would be taken in. -/
def isGreedy : Special → Bool
  | repetition _ lazy => !lazy
  | _ => false

theorem valid_shorthand (letter : Char) :
    (shorthand letter).Valid ↔ (Escape.shorthand? letter).isSome = true := Iff.rfl

theorem describe_shorthand (letter : Char) :
    (shorthand letter).describe = (Escape.shorthand? letter).getD [] := rfl

theorem describe_control (glyph : Char) :
    (control glyph).describe = "CTRL-".toList ++ [glyph] := rfl

theorem describe_unicode (digits : Text) :
    (unicode digits).describe = "Unicode ".toList ++ digits := rfl

theorem describe_hex (digits : Text) : (hex digits).describe = "Hex ".toList ++ digits := rfl

theorem describe_backreference (name : Text) :
    (backreference name).describe = "Backreference to match: ".toList ++ name := rfl

/-! ## From descriptions to specials -/

/-- The letters that are shorthands. -/
def shorthands : Text := "atrvfnewWsSdDAZzbB".toList

/-- The specials without parts, and the repetitions. -/
def simples : List Special :=
  [space, stringEnd, stringStart, anyGlyph, repetition .zeroOrMore false,
    repetition .zeroOrMore true, repetition .oneOrMore false, repetition .oneOrMore true,
    repetition .optional false, repetition .optional true]

/-- The specials whose parts are at the end of their description. -/
def composed (text : Text) : List Special :=
  text.getLast?.toList.map control ++
    [unicode (text.drop "Unicode ".toList.length), hex (text.drop "Hex ".toList.length),
      backreference (text.drop "Backreference to match: ".toList.length)]

/-- The specials that a text can describe. -/
def candidates (text : Text) : List Special :=
  simples ++ (shorthands.map shorthand ++ composed text)

/-- The special that a text describes. -/
def ofDescription? (text : Text) : Option Special :=
  (candidates text).find? fun s => s.Valid ∧ s.describe = text

/-- A text describes what is found from it. -/
theorem of_ofDescription?_eq_some {text : Text} {s : Special} (h : ofDescription? text = some s) :
    s.Valid ∧ s.describe = text := by
  simpa using List.find?_some h

theorem mem_shorthands {letter : Char} (h : (Escape.shorthand? letter).isSome) :
    letter ∈ shorthands := by
  unfold Escape.shorthand? at h
  split at h
  iterate 18 decide
  cases h

/-- From the description of a special, a special with this description is found. -/
theorem exists_ofDescription?_describe {s : Special} (h : s.Valid) :
    ∃ s', ofDescription? s.describe = some s' := by
  have hcomposed (hs : s ∈ composed s.describe) : s ∈ candidates s.describe :=
    List.mem_append_right _ (List.mem_append_right _ hs)
  have hmem : s ∈ candidates s.describe := by
    cases s with
    | space | stringEnd | stringStart | anyGlyph => simp [candidates, simples]
    | repetition r lazy =>
      refine List.mem_append_left _ ?_
      cases r <;> cases lazy <;> decide
    | shorthand letter =>
      have hletter := mem_shorthands ((valid_shorthand letter).1 h)
      exact List.mem_append_right _ (List.mem_append_left _ (List.mem_map_of_mem hletter))
    -- what is not fixed in a description stands at its end
    | control glyph =>
      refine hcomposed (List.mem_append_left _ ?_)
      rw [describe_control, List.getLast?_concat]
      exact List.mem_singleton_self _
    | unicode digits =>
      refine hcomposed (List.mem_append_right _ ?_)
      rw [describe_unicode, List.drop_left]
      exact List.mem_cons_self
    | hex digits =>
      refine hcomposed (List.mem_append_right _ (List.mem_cons_of_mem _ ?_))
      rw [describe_hex, List.drop_left]
      exact List.mem_cons_self
    | backreference name =>
      refine hcomposed (List.mem_append_right _ ?_)
      refine List.mem_cons_of_mem _ (List.mem_cons_of_mem _ ?_)
      rw [describe_backreference, List.drop_left]
      exact List.mem_cons_self
  exact Option.isSome_iff_exists.1 (List.find?_isSome.2 ⟨s, hmem, by simpa using h⟩)

end Special

/-! ## Reading specials -/

namespace Escape

theorem read?_of_shorthand? {letter : Char} {description : Text}
    (h : shorthand? letter = some description) (t : Text) :
    read? (letter :: t) = some (shorthand description, 1) := by
  unfold shorthand? at h
  split at h <;> cases h <;> rfl

theorem take?_append_of_length {count : Nat} {digits : Text} (h : digits.length = count)
    (t : Text) : take? count (digits ++ t) = some digits := by
  rw [take?, List.take_left' h, if_pos h]

theorem read?_unicode {digits : Text} (h : digits.length = 4) (t : Text) :
    read? ('u' :: (digits ++ t)) = some (unicode digits, 5) := by
  show readGlyph? 'u' (digits ++ t) = some (unicode digits, 5)
  rw [readGlyph?, take?_append_of_length h, Option.map_some]

theorem read?_hex {digits : Text} (h : digits.length = 2) (t : Text) :
    read? ('x' :: (digits ++ t)) = some (hex digits, 3) := by
  show readGlyph? 'x' (digits ++ t) = some (hex digits, 3)
  rw [readGlyph?, take?_append_of_length h, Option.map_some]

theorem read?_backreference {name : Text} (h : name.IsName) (t : Text) :
    read? ('k' :: '<' :: (name ++ '>' :: t)) = some (backreference name, name.length + 3) := by
  have hread : backreference? ('k' :: '<' :: (name ++ '>' :: t)) =
      some (name, name.length + 3) :=
    (backreference?_eq_some_iff _ _).2 ⟨_, rfl, name, t, h.wordUpTo?_eq rfl t, rfl⟩
  rw [read?, hread]

end Escape

/-- An escape is read as its atom. -/
theorem Token.reads_escape (escape : Escape) {u t : Text}
    (h : Escape.read? (u ++ t) = some (escape, u.length)) :
    Reads (.atom escape.atom) ('\\' :: u) t := by
  refine reads_cons ?_
  rw [readGlyph, h]

/-- The glyphs of a special atom are read as it. -/
theorem Special.reads_spell {s : Special} (h : s.Valid) {t : Text}
    (ht : s.isGreedy = true → t.head? ≠ some '?') :
    Token.Reads (.atom (.special s.describe)) s.spell t := by
  cases s with
  | space | stringEnd | stringStart | anyGlyph => exact Token.reads_cons rfl
  | repetition r lazy =>
    refine Token.reads_cons ?_
    cases lazy with
    | true => cases r <;> rfl
    | false => cases r <;> exact Token.readRepeat_of_head?_ne (ht rfl)
  | shorthand letter =>
    obtain ⟨description, hletter⟩ := Option.isSome_iff_exists.1 ((valid_shorthand letter).1 h)
    have hread := Token.reads_escape _ (u := [letter]) (Escape.read?_of_shorthand? hletter t)
    rw [describe_shorthand, hletter]
    exact hread
  | control glyph => exact Token.reads_escape (.control glyph) (u := ['c', glyph]) rfl
  | unicode digits =>
    refine Token.reads_escape (.unicode digits) (u := 'u' :: digits) ?_
    rw [List.cons_append, Escape.read?_unicode h t, List.length_cons, h]
  | hex digits =>
    refine Token.reads_escape (.hex digits) (u := 'x' :: digits) ?_
    rw [List.cons_append, Escape.read?_hex h t, List.length_cons, h]
  | backreference name =>
    refine Token.reads_escape (.backreference name) (u := 'k' :: '<' :: (name ++ ['>'])) ?_
    have hlength : ('k' :: '<' :: (name ++ ['>'])).length = name.length + 3 := by simp
    rw [hlength, ← Escape.read?_backreference h t]
    simp

end RegexGloss
