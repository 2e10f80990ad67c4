import Mathlib.Data.Option.Basic
import RegexGloss.Opener.Lemmas

/-!
# Alphabets

Which glyphs are letters and digits is laid down by Unicode, and new ones are added from time to
time. Little of this matters for names: no punctuation mark of ASCII may be among them. An
`Alphabet` is any choice of glyphs for which that holds, and nothing else is asked of it. Names are
read in each of them as they are read in `Alphabet.unicode`, the one in use.
-/

namespace RegexGloss

namespace Text

/-! ## Stretches of a text -/

variable {p : Char → Bool}

/-- What is taken while a property holds ends at a glyph without the property. -/
theorem takeWhile_append_cons {w t : Text} {c : Char} (hw : ∀ a ∈ w, p a = true)
    (hc : p c = false) : (w ++ c :: t).takeWhile p = w := by
  rw [List.takeWhile_append_of_pos hw, List.takeWhile_cons_of_neg (by simp [hc]), List.append_nil]

theorem dropWhile_append_cons {w t : Text} {c : Char} (hw : ∀ a ∈ w, p a = true)
    (hc : p c = false) : (w ++ c :: t).dropWhile p = c :: t := by
  rw [List.dropWhile_append_of_pos hw, List.dropWhile_cons_of_neg (by simp [hc])]

/-- The ranges of code points that hold the punctuation marks of ASCII. -/
def punctuationRanges : List (Nat × Nat) := [(33, 47), (58, 64), (91, 96), (123, 126)]

/-- Whether a glyph is a punctuation mark of ASCII. -/
def isPunctuation (c : Char) : Bool :=
  punctuationRanges.any fun range => range.1 ≤ c.toNat && c.toNat ≤ range.2

/-- Among the punctuation marks, only the low line may stand in a name. -/
theorem isWord_of_isPunctuation {c : Char} (h : isPunctuation c = true) (hc : c ≠ '_') :
    isWord c = false := by
  have hascii : ∀ n < 128, isPunctuation (Char.ofNat n) = true → Char.ofNat n ≠ '_' →
      ((Char.ofNat n).isAlphanum || Char.ofNat n == '_') = false := by
    decide
  have hlt : c.toNat < 128 := by
    simp only [isPunctuation, punctuationRanges, List.any_cons, List.any_nil, Bool.or_false,
      Bool.or_eq_true, Bool.and_eq_true, decide_eq_true_eq] at h
    omega
  have hword := hascii c.toNat hlt
  rw [Char.ofNat_toNat] at hword
  rw [isWord_of_lt hlt]
  exact hword h hc

end Text

/-! ## Words -/

/-- A choice of the glyphs that count as letters and digits. -/
structure Alphabet where
  /-- Whether a glyph is a letter or a digit. -/
  isAlphanumeric : Char → Bool
  /-- No punctuation mark of ASCII is a letter or a digit. -/
  isAlphanumeric_of_isPunctuation : ∀ c, Text.isPunctuation c = true → isAlphanumeric c = false

namespace Alphabet

/-- The letters and digits that names are made of here. -/
def unicode : Alphabet where
  isAlphanumeric c := Text.isWord c && c != '_'
  isAlphanumeric_of_isPunctuation c h := by
    by_cases hc : c = '_'
    · simp [hc]
    · rw [Text.isWord_of_isPunctuation h hc, Bool.false_and]

variable (α : Alphabet)

/-- Whether a glyph may stand in a name. -/
def isWord (c : Char) : Bool := α.isAlphanumeric c || c == '_'

/-- A name is one or more word glyphs. -/
def IsName (name : Text) : Prop := name ≠ [] ∧ ∀ c ∈ name, α.isWord c = true

/-- Reads a word that is not empty and the glyph that has to come behind it, with what follows. -/
def wordUpTo? (close : Char) (t : Text) : Option (Text × Text) :=
  if t.takeWhile α.isWord ≠ [] ∧ (t.dropWhile α.isWord).head? = some close then
    some (t.takeWhile α.isWord, (t.dropWhile α.isWord).tail)
  else
    none

/-- Reads `?<name>` or `?'name'`. -/
def named? (t : Text) : Option Opener := do
  let (close, t) ← Opener.quoted? t
  let (name, _) ← α.wordUpTo? close t
  return ⟨.named name, name.length + 3, true⟩

/-- Reads `?<first-second>` or `?'first-second'`. -/
def balancing? (t : Text) : Option Opener := do
  let (close, t) ← Opener.quoted? t
  let (first, t) ← α.wordUpTo? '-' t
  let (second, _) ← α.wordUpTo? close t
  return ⟨.balancing first second, first.length + second.length + 4, true⟩

variable {α}

theorem isWord_of_isPunctuation {c : Char} (h : Text.isPunctuation c = true) (hc : c ≠ '_') :
    α.isWord c = false := by
  rw [isWord, α.isAlphanumeric_of_isPunctuation c h, Bool.false_or, beq_eq_false_iff_ne]
  exact hc

/-- A word and the glyph behind it are read exactly where they stand. -/
theorem wordUpTo?_eq_some_iff {close : Char} (hclose : α.isWord close = false)
    (t name rest : Text) :
    α.wordUpTo? close t = some (name, rest) ↔ α.IsName name ∧ t = name ++ close :: rest := by
  constructor
  · intro h
    unfold wordUpTo? at h
    split at h
    · rename_i hword
      cases h
      obtain ⟨hname, hhead⟩ := hword
      obtain ⟨rest, hrest⟩ := List.head?_eq_some_iff.1 hhead
      refine ⟨⟨hname, List.all_eq_true.1 List.all_takeWhile⟩, ?_⟩
      rw [hrest, List.tail_cons, ← hrest, List.takeWhile_append_dropWhile]
    · cases h
  · rintro ⟨⟨hname, hall⟩, rfl⟩
    rw [wordUpTo?, Text.takeWhile_append_cons hall hclose, Text.dropWhile_append_cons hall hclose,
      if_pos ⟨hname, rfl⟩, List.tail_cons]

theorem named?_eq_some_iff (t : Text) (o : Opener) :
    α.named? t = some o ↔ ∃ close rest, Opener.quoted? t = some (close, rest) ∧
      ∃ name rest', α.wordUpTo? close rest = some (name, rest') ∧
        ⟨.named name, name.length + 3, true⟩ = o := by
  simp [named?, Option.bind_eq_some_iff]

theorem balancing?_eq_some_iff (t : Text) (o : Opener) :
    α.balancing? t = some o ↔ ∃ close rest, Opener.quoted? t = some (close, rest) ∧
      ∃ first rest', α.wordUpTo? '-' rest = some (first, rest') ∧
        ∃ second rest'', α.wordUpTo? close rest' = some (second, rest'') ∧
          ⟨.balancing first second, first.length + second.length + 4, true⟩ = o := by
  simp [balancing?, Option.bind_eq_some_iff]

/-! ## The alphabet in use -/

theorem isWord_unicode : unicode.isWord = Text.isWord := by
  funext c
  by_cases hc : c = '_'
  · subst hc
    rfl
  · show (Text.isWord c && c != '_' || c == '_') = Text.isWord c
    rw [bne_iff_ne.2 hc, Bool.and_true, beq_false_of_ne hc, Bool.or_false]

theorem wordUpTo?_unicode (close : Char) (t : Text) :
    unicode.wordUpTo? close t = Opener.wordUpTo? close t := by
  rw [wordUpTo?, isWord_unicode]
  rfl

theorem named?_unicode (t : Text) : unicode.named? t = Opener.named? t := by
  simp only [named?, Opener.named?, wordUpTo?_unicode]

theorem balancing?_unicode (t : Text) : unicode.balancing? t = Opener.balancing? t := by
  simp only [balancing?, Opener.balancing?, wordUpTo?_unicode]

end Alphabet

end RegexGloss
