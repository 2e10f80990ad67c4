import RegexGloss.Proofs.Opener.Locality

/-!
# The grammar of openers

An opener has one of seven forms (`Opener.Form`), and `Opener.Form.Starts` says how openers of each
form are written. The reader of a form reads exactly these, in any alphabet. No text starts with
openers of two forms, because the glyphs that tell them are punctuation marks and no marks stand in
names. So the forms may be tried in any order.

Main statement: `Opener.readsGrammar`.
-/

namespace RegexGloss

open Text

namespace Opener

/-! ## Forms -/

/-- The forms that an opener can have. -/
inductive Form where
  /-- The name of a capture. -/
  | named
  /-- The names of a balancing group. -/
  | balancing
  /-- A colon. -/
  | nonCapturing
  /-- Option letters and hyphens. -/
  | settings
  /-- The signs of a lookaround. -/
  | lookaround
  /-- A greater-than sign. -/
  | nonBacktracking
  /-- The parenthesis of a condition. -/
  | conditional
  deriving DecidableEq, Repr

namespace Form

/-- The reader of openers of a form. -/
def read? : Form → Text → Option Opener
  | named => named?
  | balancing => balancing?
  | nonCapturing => nonCapturing?
  | settings => settings?
  | lookaround => lookaround?
  | nonBacktracking => nonBacktracking?
  | conditional => conditional?

/-- The openers of the forms that are told by their first glyphs alone. -/
inductive Fixed : Form → Text → Opener → Prop where
  | nonCapturing (t : Text) : Fixed nonCapturing ('?' :: ':' :: t) ⟨.nonCapturing, 2, true⟩
  | ahead (t : Text) : Fixed lookaround ('?' :: '=' :: t) ⟨.lookaround .ahead false, 2, true⟩
  | notAhead (t : Text) : Fixed lookaround ('?' :: '!' :: t) ⟨.lookaround .ahead true, 2, true⟩
  | behind (t : Text) :
    Fixed lookaround ('?' :: '<' :: '=' :: t) ⟨.lookaround .behind false, 3, true⟩
  | notBehind (t : Text) :
    Fixed lookaround ('?' :: '<' :: '!' :: t) ⟨.lookaround .behind true, 3, true⟩
  | nonBacktracking (t : Text) : Fixed nonBacktracking ('?' :: '>' :: t) ⟨.nonBacktracking, 2, true⟩
  | conditional (t : Text) : Fixed conditional ('?' :: '(' :: t) ⟨.conditional, 1, true⟩

/-- Only names and settings are not told by their first glyphs alone. -/
theorem fixed_of_read? {f : Form} {t : Text} {o : Opener} (h : f.read? t = some o)
    (hnamed : f ≠ named) (hbalancing : f ≠ balancing) (hsettings : f ≠ settings) :
    f.Fixed t o := by
  cases f with
  | named => exact absurd rfl hnamed
  | balancing => exact absurd rfl hbalancing
  | settings => exact absurd rfl hsettings
  | nonCapturing =>
    replace h : nonCapturing? t = some o := h
    unfold nonCapturing? at h
    split at h <;> cases h
    exact .nonCapturing _
  | lookaround =>
    replace h : lookaround? t = some o := h
    unfold lookaround? at h
    split at h <;> cases h
    · exact .ahead _
    · exact .notAhead _
    · exact .behind _
    · exact .notBehind _
  | nonBacktracking =>
    replace h : nonBacktracking? t = some o := h
    unfold nonBacktracking? at h
    split at h <;> cases h
    exact .nonBacktracking _
  | conditional =>
    replace h : conditional? t = some o := h
    unfold conditional? at h
    split at h <;> cases h
    exact .conditional _

theorem Fixed.read? {f : Form} {t : Text} {o : Opener} (h : f.Fixed t o) : f.read? t = some o := by
  cases h <;> rfl

end Form

/-! ## Settings -/

/-- The glyphs of settings: option letters and hyphens, with one letter at least. -/
def IsSettings (glyphs : Text) : Prop :=
  (∀ c ∈ glyphs, c ∈ ['i', 'm', 'n', 's', 'x', '-']) ∧ ∃ c ∈ glyphs, c ≠ '-'

/-- What is set: the letters in order, each of them switched on exactly if no hyphen stands before
it. -/
def settingsOf (glyphs : Text) : List Setting :=
  glyphs.zipIdx.filterMap fun (c, i) =>
    (Flag.ofLetter? c).map fun flag => ⟨flag, '-' ∉ glyphs.take i⟩

theorem isSettingGlyph_iff (c : Char) :
    isSettingGlyph c = true ↔ c ∈ ['i', 'm', 'n', 's', 'x', '-'] := by
  unfold isSettingGlyph Flag.ofLetter?
  split <;> simp_all

/-- A glyph of settings that is no letter is a hyphen. -/
theorem eq_hyphen_of_isSettingGlyph {c : Char} (h : isSettingGlyph c = true)
    (hflag : Flag.ofLetter? c = none) : c = '-' := by
  rw [isSettingGlyph, hflag] at h
  simpa using h

/-- Behind other settings, a letter is switched on if no hyphen has come yet. -/
theorem settings_eq_filterMap (before : Text) {glyphs : Text}
    (h : ∀ c ∈ glyphs, isSettingGlyph c = true) :
    settings ('-' ∉ before) glyphs = (glyphs.zipIdx before.length).filterMap fun (c, i) =>
      (Flag.ofLetter? c).map fun flag => ⟨flag, '-' ∉ (before ++ glyphs).take i⟩ := by
  induction glyphs generalizing before with
  | nil => rfl
  | cons c glyphs ih =>
    have ih := ih (before ++ [c]) fun d hd => h d (List.mem_cons_of_mem c hd)
    rw [List.length_append, List.length_singleton, List.append_assoc, List.singleton_append] at ih
    rw [List.zipIdx_cons, List.filterMap_cons, ← ih, settings]
    cases hflag : Flag.ofLetter? c with
    | some flag =>
      have hc : '-' ≠ c := by
        rintro rfl
        cases hflag
      simp [hflag, hc]
    | none =>
      obtain rfl := eq_hyphen_of_isSettingGlyph (h c List.mem_cons_self) hflag
      simp [hflag]

/-- What is read from letters and hyphens is what they set. -/
theorem settings_eq_settingsOf {glyphs : Text} (h : ∀ c ∈ glyphs, isSettingGlyph c = true) :
    settings true glyphs = settingsOf glyphs :=
  settings_eq_filterMap [] h

/-- Something is set exactly if there is a letter. -/
theorem settings_ne_nil_iff (enabled : Bool) {glyphs : Text}
    (h : ∀ c ∈ glyphs, isSettingGlyph c = true) :
    settings enabled glyphs ≠ [] ↔ ∃ c ∈ glyphs, c ≠ '-' := by
  induction glyphs generalizing enabled with
  | nil => simp [settings]
  | cons c glyphs ih =>
    rw [settings]
    cases hflag : Flag.ofLetter? c with
    | some flag =>
      refine iff_of_true (List.cons_ne_nil _ _) ⟨c, List.mem_cons_self, ?_⟩
      rintro rfl
      cases hflag
    | none =>
      obtain rfl := eq_hyphen_of_isSettingGlyph (h c List.mem_cons_self) hflag
      simpa using ih false fun d hd => h d (List.mem_cons_of_mem _ hd)

/-- Letters and hyphens that set something are settings. -/
theorem isSettings_iff (glyphs : Text) :
    IsSettings glyphs ↔ (∀ c ∈ glyphs, isSettingGlyph c = true) ∧ settings true glyphs ≠ [] := by
  simp only [IsSettings, ← isSettingGlyph_iff]
  exact and_congr_right fun h => (settings_ne_nil_iff true h).symm

/-! ## Grammar -/

/-- The glyphs that open names, with those that close them. -/
def quotes : List (Char × Char) := [('<', '>'), ('\x27', '\x27')]

theorem quoted?_eq_some_iff (t : Text) (close : Char) (rest : Text) :
    quoted? t = some (close, rest) ↔
      ∃ quote, (quote, close) ∈ quotes ∧ t = '?' :: quote :: rest := by
  constructor
  · intro h
    unfold quoted? at h
    split at h <;> cases h
    · exact ⟨'<', by decide, rfl⟩
    · exact ⟨'\x27', by decide, rfl⟩
  · rintro ⟨quote, hquote, rfl⟩
    simp only [quotes, List.mem_cons, Prod.mk.injEq, List.not_mem_nil, or_false] at hquote
    rcases hquote with ⟨rfl, rfl⟩ | ⟨rfl, rfl⟩ <;> rfl

/-- Letters and hyphens are read up to a glyph that is none of them, if it ends settings. -/
theorem settings?_append_cons {glyphs rest : Text} {c : Char} {width : Nat} {hasBody : Bool}
    (hall : ∀ a ∈ glyphs, isSettingGlyph a = true) (hne : settings true glyphs ≠ [])
    (hc : isSettingGlyph c = false) (hend : settingsEnd? (c :: rest) = some (width, hasBody)) :
    settings? ('?' :: (glyphs ++ c :: rest)) =
      some ⟨.settings (settings true glyphs), 1 + glyphs.length + width, hasBody⟩ := by
  refine (settings?_eq_some_iff _ _).2 ⟨_, rfl, ?_, width, hasBody, ?_, ?_⟩
  · rwa [takeWhile_append_cons hall hc]
  · rwa [dropWhile_append_cons hall hc]
  · rw [takeWhile_append_cons hall hc]

theorem settings?_of_isSettings {glyphs rest : Text} {c : Char} {width : Nat} {hasBody : Bool}
    (hglyphs : IsSettings glyphs) (hc : isSettingGlyph c = false)
    (hend : settingsEnd? (c :: rest) = some (width, hasBody)) :
    settings? ('?' :: (glyphs ++ c :: rest)) =
      some ⟨.settings (settingsOf glyphs), glyphs.length + 1 + width, hasBody⟩ := by
  obtain ⟨hall, hne⟩ := (isSettings_iff glyphs).1 hglyphs
  rw [settings?_append_cons hall hne hc hend, settings_eq_settingsOf hall, Nat.add_comm 1]

theorem settingsEnd?_colon {t : Text} (h : t.head? ≠ some ')') :
    settingsEnd? (':' :: t) = some (1, true) := by
  unfold settingsEnd?
  split <;> simp_all

namespace Form

variable (α : Alphabet)

/-- The texts that start with an opener of a form, and the opener. -/
inductive Starts : Form → Text → Opener → Prop where
  /-- A name in quotes: `?<name>` or `?'name'`. -/
  | named {quote close : Char} {name : Text} (rest : Text) (hquote : (quote, close) ∈ quotes)
    (hname : α.IsName name) :
    Starts named ('?' :: quote :: (name ++ close :: rest)) ⟨.named name, name.length + 3, true⟩
  /-- Two names in quotes: `?<first-second>` or `?'first-second'`. -/
  | balancing {quote close : Char} {first second : Text} (rest : Text)
    (hquote : (quote, close) ∈ quotes) (hfirst : α.IsName first) (hsecond : α.IsName second) :
    Starts balancing ('?' :: quote :: (first ++ '-' :: (second ++ close :: rest)))
      ⟨.balancing first second, first.length + second.length + 4, true⟩
  /-- Settings closed by `)`, without a body. -/
  | bare {glyphs : Text} (rest : Text) (hglyphs : IsSettings glyphs) :
    Starts settings ('?' :: (glyphs ++ ')' :: rest))
      ⟨.settings (settingsOf glyphs), glyphs.length + 2, false⟩
  /-- Settings closed by `:)`, without a body. -/
  | bareColon {glyphs : Text} (rest : Text) (hglyphs : IsSettings glyphs) :
    Starts settings ('?' :: (glyphs ++ ':' :: ')' :: rest))
      ⟨.settings (settingsOf glyphs), glyphs.length + 3, false⟩
  /-- Settings and a `:`, with a body behind them. -/
  | body {glyphs rest : Text} (hglyphs : IsSettings glyphs) (hrest : rest.head? ≠ some ')') :
    Starts settings ('?' :: (glyphs ++ ':' :: rest))
      ⟨.settings (settingsOf glyphs), glyphs.length + 2, true⟩
  /-- Any of `?:`, `?=`, `?!`, `?<=`, `?<!`, `?>` and `?(`. -/
  | fixed {f : Form} {t : Text} {o : Opener} (h : f.Fixed t o) : Starts f t o

/-- The reader of openers of a form in an alphabet. -/
def readIn? : Form → Text → Option Opener
  | named => α.named?
  | balancing => α.balancing?
  | f => f.read?

theorem readIn?_unicode (f : Form) (t : Text) : f.readIn? .unicode t = f.read? t := by
  cases f with
  | named => exact Alphabet.named?_unicode t
  | balancing => exact Alphabet.balancing?_unicode t
  | _ => rfl

variable {α} {f g : Form} {t : Text} {o a b : Opener}

/-- The glyphs behind a name are punctuation marks, so no name goes on with them. -/
theorem isWord_of_mem_quotes {quote close : Char} (h : (quote, close) ∈ quotes) :
    α.isWord close = false := by
  simp only [quotes, List.mem_cons, Prod.mk.injEq, List.not_mem_nil, or_false] at h
  rcases h with ⟨-, rfl⟩ | ⟨-, rfl⟩ <;> exact Alphabet.isWord_of_isPunctuation rfl (by decide)

theorem isWord_hyphen : α.isWord '-' = false :=
  Alphabet.isWord_of_isPunctuation rfl (by decide)

theorem named?_eq_some_iff_starts : α.named? t = some o ↔ Starts α named t o := by
  rw [Alphabet.named?_eq_some_iff]
  constructor
  · rintro ⟨close, u, hquoted, name, rest, hword, rfl⟩
    obtain ⟨quote, hquote, rfl⟩ := (quoted?_eq_some_iff _ _ _).1 hquoted
    obtain ⟨hname, rfl⟩ :=
      (Alphabet.wordUpTo?_eq_some_iff (isWord_of_mem_quotes hquote) _ _ _).1 hword
    exact .named rest hquote hname
  · intro h
    cases h with
    | @named quote close name rest hquote hname =>
      exact ⟨close, _, (quoted?_eq_some_iff _ _ _).2 ⟨quote, hquote, rfl⟩, name, rest,
        (Alphabet.wordUpTo?_eq_some_iff (isWord_of_mem_quotes hquote) _ _ _).2 ⟨hname, rfl⟩, rfl⟩
    | fixed h => cases h

theorem balancing?_eq_some_iff_starts : α.balancing? t = some o ↔ Starts α balancing t o := by
  rw [Alphabet.balancing?_eq_some_iff]
  constructor
  · rintro ⟨close, u, hquoted, first, v, hword, second, rest, hword', rfl⟩
    obtain ⟨quote, hquote, rfl⟩ := (quoted?_eq_some_iff _ _ _).1 hquoted
    obtain ⟨hfirst, rfl⟩ := (Alphabet.wordUpTo?_eq_some_iff isWord_hyphen _ _ _).1 hword
    obtain ⟨hsecond, rfl⟩ :=
      (Alphabet.wordUpTo?_eq_some_iff (isWord_of_mem_quotes hquote) _ _ _).1 hword'
    exact .balancing rest hquote hfirst hsecond
  · intro h
    cases h with
    | @balancing quote close first second rest hquote hfirst hsecond =>
      exact ⟨close, _, (quoted?_eq_some_iff _ _ _).2 ⟨quote, hquote, rfl⟩, first, _,
        (Alphabet.wordUpTo?_eq_some_iff isWord_hyphen _ _ _).2 ⟨hfirst, rfl⟩, second, rest,
        (Alphabet.wordUpTo?_eq_some_iff (isWord_of_mem_quotes hquote) _ _ _).2 ⟨hsecond, rfl⟩, rfl⟩
    | fixed h => cases h

theorem settings?_eq_some_iff_starts : settings? t = some o ↔ Starts α settings t o := by
  constructor
  · intro h
    obtain ⟨u, rfl, hne, width, hasBody, hend, rfl⟩ := (settings?_eq_some_iff _ _).1 h
    have hall : ∀ c ∈ u.takeWhile isSettingGlyph, isSettingGlyph c = true :=
      List.all_eq_true.1 List.all_takeWhile
    have hsplit := List.takeWhile_append_dropWhile (p := isSettingGlyph) (l := u)
    -- the letters and hyphens, and what ends them
    generalize u.takeWhile isSettingGlyph = glyphs at hne hall hsplit ⊢
    generalize u.dropWhile isSettingGlyph = rest at hend hsplit
    have hglyphs : IsSettings glyphs := (isSettings_iff glyphs).2 ⟨hall, hne⟩
    rw [← hsplit, settings_eq_settingsOf hall, Nat.add_comm 1]
    unfold settingsEnd? at hend
    split at hend
    · cases hend
      exact .bare _ hglyphs
    · cases hend
      exact .bareColon _ hglyphs
    · rename_i rest hclose
      cases hend
      -- a colon with a parenthesis behind it would have been read before
      refine .body hglyphs fun hhead => ?_
      obtain ⟨rest, rfl⟩ := List.head?_eq_some_iff.1 hhead
      exact hclose rest rfl
    · cases hend
  · intro h
    cases h with
    | bare rest hglyphs =>
      have hend : settingsEnd? (')' :: rest) = some (1, false) := rfl
      exact settings?_of_isSettings hglyphs rfl hend
    | bareColon rest hglyphs =>
      have hend : settingsEnd? (':' :: ')' :: rest) = some (2, false) := rfl
      exact settings?_of_isSettings hglyphs rfl hend
    | body hglyphs hrest =>
      exact settings?_of_isSettings hglyphs rfl (settingsEnd?_colon hrest)
    | fixed h => cases h

/-- The reader of a form reads exactly the openers that have the form. -/
theorem readIn?_eq_some_iff : f.readIn? α t = some o ↔ Starts α f t o := by
  cases f with
  | named => exact named?_eq_some_iff_starts
  | balancing => exact balancing?_eq_some_iff_starts
  | settings => exact settings?_eq_some_iff_starts
  | nonCapturing | lookaround | nonBacktracking | conditional =>
    constructor
    · exact fun h => .fixed (fixed_of_read? h nofun nofun nofun)
    · rintro (_ | _ | _ | _ | _ | h)
      exact h.read?

/-! ## One form at most -/

/-- The only form that a text can be read as. -/
def of? (α : Alphabet) : Text → Option Form
  | '?' :: ':' :: _ => some nonCapturing
  | '?' :: '=' :: _ => some lookaround
  | '?' :: '!' :: _ => some lookaround
  | '?' :: '<' :: '=' :: _ => some lookaround
  | '?' :: '<' :: '!' :: _ => some lookaround
  | '?' :: '>' :: _ => some nonBacktracking
  | '?' :: '(' :: _ => some conditional
  | '?' :: '<' :: t =>
    some (if (t.dropWhile α.isWord).head? = some '-' then balancing else named)
  | '?' :: '\x27' :: t =>
    some (if (t.dropWhile α.isWord).head? = some '-' then balancing else named)
  | '?' :: _ => some settings
  | _ => none

/-- A word glyph is no sign of a lookbehind. -/
theorem of?_of_isWord {c : Char} (hc : α.isWord c = true) (t : Text) :
    of? α ('?' :: '<' :: c :: t) =
      some (if ((c :: t).dropWhile α.isWord).head? = some '-' then balancing else named) := by
  have hmark {d : Char} (hd : isPunctuation d = true) (hlow : d ≠ '_') : c ≠ d := by
    rintro rfl
    rw [Alphabet.isWord_of_isPunctuation hd hlow] at hc
    cases hc
  have heq : c ≠ '=' := hmark rfl (by decide)
  have hne : c ≠ '!' := hmark rfl (by decide)
  simp [of?, heq, hne]

/-- A quote, a name and the glyph behind it tell a form. -/
theorem of?_of_quoted {quote close last : Char} {name : Text} (hquote : (quote, close) ∈ quotes)
    (hname : α.IsName name) (hlast : α.isWord last = false) (rest : Text) :
    of? α ('?' :: quote :: (name ++ last :: rest)) =
      some (if last = '-' then balancing else named) := by
  obtain ⟨hne, hall⟩ := hname
  have hafter : ((name ++ last :: rest).dropWhile α.isWord).head? = some last := by
    rw [dropWhile_append_cons hall hlast, List.head?_cons]
  obtain ⟨c, name, rfl⟩ := List.exists_cons_of_ne_nil hne
  -- behind `<` the first glyph of the name is what tells it from a lookbehind
  simp only [quotes, List.mem_cons, Prod.mk.injEq, List.not_mem_nil, or_false] at hquote
  rcases hquote with ⟨rfl, -⟩ | ⟨rfl, -⟩
  · rw [List.cons_append] at hafter ⊢
    simp only [of?_of_isWord (hall c List.mem_cons_self), hafter, Option.some.injEq]
  · simp only [of?, hafter, Option.some.injEq]

/-- Settings are told by their first glyph. -/
theorem of?_of_isSettings {glyphs : Text} (h : IsSettings glyphs) (rest : Text) :
    of? α ('?' :: (glyphs ++ rest)) = some settings := by
  obtain ⟨hall, c, hc, -⟩ := h
  obtain ⟨d, glyphs, rfl⟩ := List.exists_cons_of_ne_nil (List.ne_nil_of_mem hc)
  have hd := hall d List.mem_cons_self
  simp only [List.mem_cons, List.not_mem_nil, or_false] at hd
  rcases hd with rfl | rfl | rfl | rfl | rfl | rfl <;> rfl

/-- The opener that a text starts with has the form that the text can be read as. -/
theorem Starts.of?_eq (h : Starts α f t o) : of? α t = some f := by
  cases h with
  | @named quote close name rest hquote hname =>
    have hclose : close ≠ '-' := by
      rintro rfl
      exact absurd hquote (by simp [quotes])
    rw [of?_of_quoted hquote hname (isWord_of_mem_quotes hquote), if_neg hclose]
  | balancing rest hquote hfirst hsecond =>
    rw [of?_of_quoted hquote hfirst isWord_hyphen, if_pos rfl]
  | bare rest hglyphs => exact of?_of_isSettings hglyphs _
  | bareColon rest hglyphs => exact of?_of_isSettings hglyphs _
  | body hglyphs hrest => exact of?_of_isSettings hglyphs _
  | fixed h => cases h <;> rfl

/-- No text is read by two forms. -/
theorem eq_of_readIn?_eq_some (hf : f.readIn? α t = some a) (hg : g.readIn? α t = some b) :
    f = g :=
  Option.some.inj ((readIn?_eq_some_iff.1 hf).of?_eq.symm.trans (readIn?_eq_some_iff.1 hg).of?_eq)

/-- No opener is longer than the text that it starts. -/
theorem Starts.width_le (h : Starts α f t o) : o.width ≤ t.length := by
  cases h with
  | fixed h => cases h <;> simp
  | _ =>
    simp only [List.length_cons, List.length_append]
    omega

end Form

/-! ## Any opener -/

/-- Reads an opener of any form in an alphabet. -/
def readIn? (α : Alphabet) (t : Text) : Option Opener :=
  α.named? t <|> α.balancing? t <|> nonCapturing? t <|> settings? t <|> lookaround? t <|>
    nonBacktracking? t <|> conditional? t

theorem readIn?_unicode (t : Text) : readIn? .unicode t = read? t := by
  rw [readIn?, Alphabet.named?_unicode, Alphabet.balancing?_unicode]
  rfl

/-- The forms in the order in which they are tried. -/
def Form.all : List Form :=
  [named, balancing, nonCapturing, settings, lookaround, nonBacktracking, conditional]

theorem readIn?_eq_findSome? (α : Alphabet) (t : Text) :
    readIn? α t = Form.all.findSome? (·.readIn? α t) := by
  have hcons (f : Form) (forms : List Form) : (f :: forms).findSome? (·.readIn? α t) =
      (f.readIn? α t <|> forms.findSome? (·.readIn? α t)) := by
    rw [List.findSome?_cons]
    cases f.readIn? α t <;> rfl
  simp only [readIn?, Form.all, hcons, List.findSome?_nil, Option.orElse_eq_orElse,
    Option.orElse_eq_or, Option.or_none]
  rfl

/-- If no two elements of a list have a value, it does not matter which of them comes first. -/
theorem findSome?_eq_some_iff_of_unique {ι β : Type} {f : ι → Option β} {l : List ι}
    (hall : ∀ i, i ∈ l) (hf : ∀ i j a b, f i = some a → f j = some b → i = j) (b : β) :
    l.findSome? f = some b ↔ ∃ i, f i = some b := by
  constructor
  · intro h
    obtain ⟨i, -, hi⟩ := List.exists_of_findSome?_eq_some h
    exact ⟨i, hi⟩
  · rintro ⟨i, hi⟩
    cases h : l.findSome? f with
    | none =>
      rw [List.findSome?_eq_none_iff.1 h i (hall i)] at hi
      cases hi
    | some a =>
      obtain ⟨j, -, hj⟩ := List.exists_of_findSome?_eq_some h
      obtain rfl := hf i j b a hi hj
      exact hj.symm.trans hi

/-- In any order, the forms read the same openers. -/
theorem findSome?_readIn?_eq_some_iff {α : Alphabet} {forms : List Form}
    (hforms : ∀ f, f ∈ forms) (t : Text) (o : Opener) :
    forms.findSome? (·.readIn? α t) = some o ↔ ∃ f : Form, f.readIn? α t = some o :=
  findSome?_eq_some_iff_of_unique hforms (fun _ _ _ _ => Form.eq_of_readIn?_eq_some) o

/-- An opener is read exactly if one of the forms reads it. -/
theorem readIn?_eq_some_iff {α : Alphabet} (t : Text) (o : Opener) :
    readIn? α t = some o ↔ ∃ f : Form, f.readIn? α t = some o := by
  rw [readIn?_eq_findSome?]
  exact findSome?_readIn?_eq_some_iff (fun f => by cases f <;> decide) t o

/-- How openers are read in an alphabet. -/
structure ReadsGrammar (α : Alphabet) : Prop where
  /-- At most one of the forms reads an opener from a text. -/
  form_eq : ∀ (t : Text) (f g : Form),
    (f.readIn? α t).isSome → (g.readIn? α t).isSome → f = g
  /-- The forms may be tried in any order. -/
  findSome?_eq : ∀ forms : List Form, (∀ f, f ∈ forms) →
    ∀ t, forms.findSome? (·.readIn? α t) = readIn? α t
  /-- An opener is read from a text exactly if the text starts with it. -/
  readIn?_eq_some_iff : ∀ t o, readIn? α t = some o ↔ ∃ f, Form.Starts α f t o
  /-- An opener takes up no more glyphs than there are. -/
  width_le : ∀ t o, readIn? α t = some o → o.width ≤ t.length

/-- Exactly the openers of the grammar are read, with one form at most, whichever glyphs besides
punctuation marks are letters and digits. With those in use, what is read is what `Opener.read?`
reads. -/
theorem readsGrammar :
    (∀ α, ReadsGrammar α) ∧
      ∀ t, readIn? .unicode t = read? t ∧ ∀ f : Form, f.readIn? .unicode t = f.read? t := by
  refine ⟨fun α => ⟨?_, ?_, ?_, ?_⟩, fun t => ⟨readIn?_unicode t, fun f => f.readIn?_unicode t⟩⟩
  · intro t f g hf hg
    obtain ⟨a, ha⟩ := Option.isSome_iff_exists.1 hf
    obtain ⟨b, hb⟩ := Option.isSome_iff_exists.1 hg
    exact Form.eq_of_readIn?_eq_some ha hb
  · intro forms hforms t
    ext o
    rw [findSome?_readIn?_eq_some_iff hforms, readIn?_eq_some_iff]
  · intro t o
    simp only [readIn?_eq_some_iff, Form.readIn?_eq_some_iff]
  · intro t o h
    obtain ⟨f, hf⟩ := (readIn?_eq_some_iff t o).1 h
    exact (Form.readIn?_eq_some_iff.1 hf).width_le

/-- Hyphens may stand anywhere among the letters, and switch off those behind the first of them. -/
example : read? ['?', 'i', '-', '-', 'm', '-', ':', ')', 'a'] =
    some ⟨.settings [⟨.ignoreCase, true⟩, ⟨.multiline, false⟩], 8, false⟩ := by
  decide

end Opener

end RegexGloss
