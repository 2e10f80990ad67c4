import RegexGloss.Node.Render
import RegexGloss.Proofs.Construct.Basic
import RegexGloss.Proofs.Spelling.Special

/-!
# How trees are written

`Node.spellAll` writes a list of nodes as a pattern: literals that have another meaning with a
backslash, the other atoms with the glyphs of their kind, groups with their openers. Bars are
written wherever they are, and `Node.placeAll` gives them the positions that they have in the
pattern.

`Node.WellFormed` says which trees are written so that nothing runs together: names and counts are
not empty, the branches of a choice have no bars outside of their groups, and no `?` follows a
greedy quantifier or a plain parenthesis.
-/

namespace RegexGloss

open Text

/-! ## Atoms -/

/-- The glyphs that do not stand for themselves, apart from the space. -/
def metaGlyphs : Text := ['(', ')', '[', '\\', '{', '|', '$', '^', '.', '*', '+', '?']

/-- The glyphs that have another meaning only where blanks are skipped, apart from the space. -/
def skippedGlyphs : Text := ['#', '\t', '\r', '\n']

/-- How a glyph is written that is to stand for itself. -/
def Text.quote (c : Char) : Text := if c ∈ metaGlyphs then ['\\', c] else [c]

/-- How bounds are written. -/
def Bound.spell : Bound → Text
  | exactly count => count
  | atLeast least => least ++ [',']
  | between least most => least ++ ',' :: most

/-- A count is one or more digits. -/
def Text.IsCount (count : Text) : Prop := count ≠ [] ∧ ∀ c ∈ count, c.isDigit = true

/-- All counts of bounds have digits. -/
def Bound.Valid : Bound → Prop
  | exactly count => count.IsCount
  | atLeast least => least.IsCount
  | between least most => least.IsCount ∧ most.IsCount

/-- How a quantifier in braces is written. -/
def Quantifier.spell : Quantifier → Text
  | bounded bound lazy => '{' :: (bound.spell ++ '}' :: if lazy then ['?'] else [])
  | unterminated => []

/-- A quantifier is closed and has counts. -/
def Quantifier.Valid : Quantifier → Prop
  | bounded bound _ => bound.Valid
  | unterminated => False

/-- How a class is written. -/
def CharClass.spell : CharClass → Text
  | set members false => '[' :: (members ++ [']'])
  | set members true => '[' :: '^' :: (members ++ [']'])
  | unterminated => []

/-- A class is closed, none of its members closes it, and none makes it a complement. -/
def CharClass.Valid : CharClass → Prop
  | set members negated => ']' ∉ members ∧ (negated = false → members.head? ≠ some '^')
  | unterminated => False

namespace Atom

/-- How an atom is written. -/
def spell : Atom → Text
  | literal text => if text = spaceMark then ['\\', ' '] else text.flatMap quote
  | special text => ((Special.ofDescription? text).map Special.spell).getD []
  | charClass cls => cls.spell
  | quantifier bounds => bounds.spell

/-- A literal is one glyph or an escaped space, a special atom is described as one, and classes and
quantifiers are as they should be. -/
def Valid : Atom → Prop
  | literal text => text = spaceMark ∨ ∃ c, c ≠ ' ' ∧ text = [c]
  | special text => ∃ s : Special, s.Valid ∧ s.describe = text
  | charClass cls => cls.Valid
  | quantifier bounds => bounds.Valid

/-- Whether an atom is a quantifier that a `?` behind it would make lazy. -/
def isGreedy : Atom → Bool
  | special text =>
    [.zeroOrMore, .oneOrMore, .optional].any fun r : Repetition => r.describe == text
  | quantifier (.bounded _ lazy) => !lazy
  | _ => false

/-- Whether an atom is a quantifier that starts with a `?`. -/
def isOptional : Atom → Bool
  | special text =>
    [false, true].any fun lazy => (Special.repetition .optional lazy).describe == text
  | _ => false

/-- A glyph that stands for itself is quoted. -/
theorem spell_literal_singleton (c : Char) : (literal [c]).spell = quote c := by
  have hmark : [c] ≠ spaceMark := by
    intro heq
    have hlength : [c].length = 11 := congrArg List.length heq
    cases hlength
  rw [spell, if_neg hmark, List.flatMap_singleton]

/-- What a special describes is written like a special with the same description. -/
theorem exists_spell_special {s : Special} (h : s.Valid) :
    ∃ s' : Special, s'.Valid ∧ s'.describe = s.describe ∧
      (special s.describe).spell = s'.spell := by
  obtain ⟨s', hs'⟩ := Special.exists_ofDescription?_describe h
  obtain ⟨hvalid, hdescribe⟩ := Special.of_ofDescription?_eq_some hs'
  exact ⟨s', hvalid, hdescribe, by rw [spell, hs', Option.map_some, Option.getD_some]⟩

end Atom

/-! ## Openers -/

/-- The signs of a lookaround. -/
def Direction.signs : Direction → Bool → Text
  | ahead, false => ['=']
  | ahead, true => ['!']
  | behind, false => ['<', '=']
  | behind, true => ['<', '!']

/-- The letters that switch options on, and behind a hyphen those that switch options off. -/
def Setting.spellAll (list : List Setting) : Text :=
  (list.takeWhile (·.enabled)).map (·.flag.letter) ++
    match list.dropWhile (·.enabled) with
    | [] => []
    | off => '-' :: off.map (·.flag.letter)

/-- Something is set, and nothing is switched on behind what is switched off. -/
def Setting.ValidAll (list : List Setting) : Prop :=
  list ≠ [] ∧ ∀ s ∈ list.dropWhile (·.enabled), s.enabled = false

namespace GroupKind

/-- What is written between the parenthesis of a group and its body. -/
def opener : GroupKind → Text
  | capture => []
  | nonCapturing => ['?', ':']
  | named name => '?' :: '<' :: (name ++ ['>'])
  | balancing first second => '?' :: '<' :: (first ++ '-' :: (second ++ ['>']))
  | settings list => '?' :: (Setting.spellAll list ++ [':'])
  | lookaround direction negated => '?' :: direction.signs negated
  | nonBacktracking => ['?', '>']
  | conditional => ['?']

/-- What is written between the parentheses of a group that has no body. -/
def bareOpener : GroupKind → Text
  | settings list => '?' :: Setting.spellAll list
  | _ => []

/-- The names of a group are names, and its settings can be written. -/
def Valid : GroupKind → Prop
  | named name => name.IsName
  | balancing first second => first.IsName ∧ second.IsName
  | settings list => Setting.ValidAll list
  | _ => True

end GroupKind

/-! ## Trees -/

namespace Node

/-- Whether a node is a quantifier that a `?` behind it would make lazy. -/
def isGreedy : Node → Bool
  | atom a => a.isGreedy
  | _ => false

/-- Whether a node is a quantifier that starts with a `?`. -/
def isOptional : Node → Bool
  | atom a => a.isOptional
  | _ => false

mutual

/-- How a node is written. A choice is written from the parenthesis of its condition to the end of
its branches. -/
def spell : Node → Text
  | atom a => a.spell
  | bar _ => ['|']
  | group kind body => '(' :: (kind.opener ++ (spellAll body ++ [')']))
  | bare kind => '(' :: (kind.bareOpener ++ [')'])
  | ifThen condition yes => '(' :: (spellAll condition ++ ')' :: spellAll yes)
  | ifThenElse condition yes no =>
    '(' :: (spellAll condition ++ ')' :: (spellAll yes ++ '|' :: spellAll no))
termination_by structural n => n

/-- How nodes are written one after the other. -/
def spellAll : List Node → Text
  | [] => []
  | n :: ns => spell n ++ spellAll ns
termination_by structural ns => ns

end

mutual

/-- A node with its bars at their positions, if it is written from an offset on. -/
def place (offset : Nat) : Node → Node
  | atom a => atom a
  | bar _ => bar offset
  | group kind body => group kind (placeAll (offset + (kind.opener.length + 1)) body)
  | bare kind => bare kind
  | ifThen condition yes =>
    ifThen (placeAll (offset + 1) condition)
      (placeAll (offset + 2 + (spellAll condition).length) yes)
  | ifThenElse condition yes no =>
    ifThenElse (placeAll (offset + 1) condition)
      (placeAll (offset + 2 + (spellAll condition).length) yes)
      (placeAll (offset + 2 + (spellAll condition).length + (spellAll yes).length + 1) no)
termination_by structural n => n

/-- Nodes with their bars at their positions, if they are written from an offset on. -/
def placeAll (offset : Nat) : List Node → List Node
  | [] => []
  | n :: ns => place offset n :: placeAll (offset + n.spell.length) ns
termination_by structural ns => ns

end

/-- Choices stand in the groups of conditionals only. -/
def NoChoice (ns : List Node) : Prop := ∀ n ∈ ns, n.kind ≠ .conditional

/-- Which bodies a group can have: that of a conditional is a choice, that of a plain group does not
start like an opener, and settings have a body only if something is in it. -/
def Fits (body : List Node) : GroupKind → Prop
  | .conditional => ∃ n, body = [n] ∧ n.kind = .conditional
  | .capture => NoChoice body ∧ ∀ n ∈ body.head?, n.isOptional = false
  | .settings _ => NoChoice body ∧ body ≠ []
  | _ => NoChoice body

mutual

/-- A node can be written in a pattern. -/
def WellFormed : Node → Prop
  | atom a => a.Valid
  | bar _ => True
  | group kind body => kind.Valid ∧ Fits body kind ∧ WellFormedAll body
  | bare kind => ∃ list, kind = .settings list ∧ Setting.ValidAll list
  | ifThen condition yes =>
    (NoChoice condition ∧ WellFormedAll condition) ∧
      (NoChoice yes ∧ bars yes = 0 ∧ WellFormedAll yes)
  | ifThenElse condition yes no =>
    (NoChoice condition ∧ WellFormedAll condition) ∧
      (NoChoice yes ∧ bars yes = 0 ∧ WellFormedAll yes) ∧
        (NoChoice no ∧ bars no = 0 ∧ WellFormedAll no)
termination_by structural n => n

/-- Nodes can be written one after the other: no `?` follows a greedy quantifier. -/
def WellFormedAll : List Node → Prop
  | [] => True
  | n :: ns =>
    WellFormed n ∧ (n.isGreedy = true → ∀ m ∈ ns.head?, m.isOptional = false) ∧ WellFormedAll ns
termination_by structural ns => ns

end

/-- A single node has no node behind it that could change how it is read. -/
theorem wellFormedAll_singleton {n : Node} : WellFormedAll [n] ↔ WellFormed n := by
  simp [WellFormedAll]

@[simp]
theorem spellAll_nil : spellAll [] = [] := rfl

@[simp]
theorem spellAll_cons (n : Node) (ns : List Node) : spellAll (n :: ns) = n.spell ++ spellAll ns :=
  rfl

@[simp]
theorem placeAll_nil (offset : Nat) : placeAll offset [] = [] := rfl

@[simp]
theorem placeAll_cons (offset : Nat) (n : Node) (ns : List Node) :
    placeAll offset (n :: ns) = n.place offset :: placeAll (offset + n.spell.length) ns := rfl

end Node

/-! ## First glyphs -/

theorem Text.exists_quote_eq_cons (c : Char) :
    ∃ a w, quote c = a :: w ∧ a ≠ ')' ∧ a ≠ '?' := by
  unfold quote
  split
  · exact ⟨'\\', [c], rfl, by decide, by decide⟩
  · rename_i hmeta
    refine ⟨c, [], rfl, ?_, ?_⟩
    · rintro rfl
      exact hmeta (by decide)
    · rintro rfl
      exact hmeta (by decide)

theorem Special.exists_spell_eq_cons (s : Special) :
    ∃ c w, s.spell = c :: w ∧ c ≠ ')' ∧
      (c = '?' → (Atom.special s.describe).isOptional = true) := by
  cases s with
  | repetition r lazy =>
    refine ⟨r.glyph, _, rfl, ?_, ?_⟩
    · cases r <;> decide
    · cases r with
      | optional => cases lazy <;> decide
      | _ => nofun
  | _ => exact ⟨_, _, rfl, by decide, nofun⟩

/-- What an atom is written with is not empty. It does not start with a closing parenthesis, and
with a `?` only if it is the quantifier of this glyph. -/
theorem Atom.exists_spell_eq_cons {a : Atom} (h : a.Valid) :
    ∃ c w, a.spell = c :: w ∧ c ≠ ')' ∧ (c = '?' → a.isOptional = true) := by
  cases a with
  | literal text =>
    rcases h with rfl | ⟨c, -, rfl⟩
    · exact ⟨_, _, rfl, by decide, nofun⟩
    · obtain ⟨a, w, hquote, hclose, hquestion⟩ := exists_quote_eq_cons c
      rw [spell_literal_singleton]
      exact ⟨a, w, hquote, hclose, fun ha => absurd ha hquestion⟩
  | special text =>
    obtain ⟨s, hs, rfl⟩ := h
    obtain ⟨s', -, hdescribe, hspell⟩ := exists_spell_special hs
    rw [hspell, ← hdescribe]
    exact Special.exists_spell_eq_cons s'
  | charClass cls =>
    rcases cls with ⟨members, _ | _⟩ | _
    · exact ⟨_, _, rfl, by decide, nofun⟩
    · exact ⟨_, _, rfl, by decide, nofun⟩
    · exact h.elim
  | quantifier bounds =>
    cases bounds with
    | bounded bound lazy => exact ⟨_, _, rfl, by decide, nofun⟩
    | unterminated => exact h.elim

namespace Node

/-- What a node is written with is not empty. It does not start with a closing parenthesis, and
with a `?` only if it is the quantifier of this glyph. -/
theorem exists_spell_eq_cons {n : Node} (h : n.WellFormed) :
    ∃ c w, n.spell = c :: w ∧ c ≠ ')' ∧ (c = '?' → n.isOptional = true) := by
  cases n with
  | atom a => exact Atom.exists_spell_eq_cons h
  | _ => exact ⟨_, _, rfl, by decide, nofun⟩

variable {ns : List Node} {t : Text}

/-- No `?` is written first where the first node is not the quantifier of this glyph. -/
theorem head?_spellAll_append_ne_question (h : WellFormedAll ns)
    (hhead : ∀ n ∈ ns.head?, n.isOptional = false) (ht : t.head? ≠ some '?') :
    (spellAll ns ++ t).head? ≠ some '?' := by
  cases ns with
  | nil => exact ht
  | cons n ns =>
    obtain ⟨c, w, hspell, -, hquestion⟩ := exists_spell_eq_cons h.1
    rw [spellAll_cons, hspell]
    intro hc
    have hoptional := hquestion (Option.some.inj hc)
    rw [hhead n rfl] at hoptional
    cases hoptional

/-- No closing parenthesis is written first where there is a node. -/
theorem head?_spellAll_append_ne_close (h : WellFormedAll ns) (hns : ns ≠ []) :
    (spellAll ns ++ t).head? ≠ some ')' := by
  cases ns with
  | nil => exact absurd rfl hns
  | cons n ns =>
    obtain ⟨c, w, hspell, hclose, -⟩ := exists_spell_eq_cons h.1
    rw [spellAll_cons, hspell]
    exact fun hc => hclose (Option.some.inj hc)

@[simp]
theorem literal?_place (offset : Nat) (n : Node) : (n.place offset).literal? = n.literal? := by
  cases n <;> rfl

theorem isSome_bar?_place (offset : Nat) (n : Node) :
    (n.place offset).bar?.isSome = n.bar?.isSome := by
  cases n <;> rfl

/-- Placing nodes does not add or remove bars. -/
theorem bars_placeAll (offset : Nat) (ns : List Node) : bars (placeAll offset ns) = bars ns := by
  induction ns generalizing offset with
  | nil => rfl
  | cons n ns ih =>
    have ih := ih (offset + n.spell.length)
    unfold bars at ih ⊢
    rw [placeAll_cons, List.countP_cons, List.countP_cons, ih, isSome_bar?_place]

end Node

end RegexGloss
