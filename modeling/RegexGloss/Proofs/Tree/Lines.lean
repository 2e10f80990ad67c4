import Mathlib.Data.List.Basic
import RegexGloss.Proofs.Token.Description

/-!
# Lines of explanations

A list of nodes is rendered as whole lines, and so is a node that is given a line end. What these
lines say does not depend on the indentation, which only puts spaces in front of each of them
(`Text.Lined`). This needs texts without line ends of their own (`Node.Unbroken`).

The induction follows the rendering. Bodies of groups are lines that stand two spaces further to the
right (`Lined.shift`), and a label takes the place of the spaces in front of the first line behind
it (`Lined.labelled`).

Main statement: `Node.lined_renderAll`.
-/

namespace RegexGloss

namespace Text

/-! ## Lines -/

/-- No glyph of a text belongs to a line end. -/
def Unbroken (t : Text) : Prop := ∀ c ∈ t, c ≠ '\r' ∧ c ≠ '\n'

instance (t : Text) : Decidable t.Unbroken :=
  -- the glyphs of the text are gone through, not all glyphs that there are
  List.decidableBAll (fun c => c ≠ '\r' ∧ c ≠ '\n') t

/-- Lines at an indentation, each with its line end. -/
def unlines (indent : Nat) (ls : List Text) : Text :=
  ls.flatMap fun l => spaces indent ++ l ++ lineEnd

theorem Unbroken.append {s t : Text} (hs : s.Unbroken) (ht : t.Unbroken) : (s ++ t).Unbroken :=
  List.forall_mem_append.2 ⟨hs, ht⟩

theorem unbroken_spaces (n : Nat) : (spaces n).Unbroken := by
  intro c hc
  obtain rfl := List.eq_of_mem_replicate hc
  decide

theorem Unbroken.dropSpaces {t : Text} (h : t.Unbroken) : (dropSpaces t).Unbroken := by
  intro c hc
  exact h c ((List.dropWhile_sublist _).mem hc)

/-- A text with glyphs that end no line at its end does not end a line. -/
theorem endsLine_append_of_unbroken (s : Text) {t : Text} (h : t.Unbroken) (ht : t ≠ []) :
    endsLine (s ++ t) = false := by
  rw [← Bool.not_eq_true, endsLine_iff]
  intro hsuffix
  -- the last glyph would be a line feed
  have hlast : (s ++ t).getLast? = some '\n' := by
    obtain ⟨u, hu⟩ := hsuffix
    rw [← hu, List.getLast?_append]
    rfl
  rw [List.getLast?_append_of_ne_nil s ht] at hlast
  exact (h '\n' (List.mem_of_getLast? hlast)).2 rfl

theorem spaces_add (m n : Nat) : spaces (m + n) = spaces m ++ spaces n :=
  List.replicate_add m n ' '

@[simp]
theorem unlines_nil (indent : Nat) : unlines indent [] = [] := rfl

@[simp]
theorem unlines_cons (indent : Nat) (l : Text) (ls : List Text) :
    unlines indent (l :: ls) = spaces indent ++ l ++ lineEnd ++ unlines indent ls := rfl

theorem unlines_append (indent : Nat) (ls ms : List Text) :
    unlines indent (ls ++ ms) = unlines indent ls ++ unlines indent ms :=
  List.flatMap_append

/-- Lines that stand further to the right are lines with spaces in front of them. -/
theorem unlines_add (indent n : Nat) (ls : List Text) :
    unlines (indent + n) ls = unlines indent (ls.map (spaces n ++ ·)) := by
  simp only [unlines, List.flatMap_map, spaces_add, List.append_assoc]

/-- One line or more end with a line end. -/
theorem endsLine_unlines (indent : Nat) (l : Text) (ls : List Text) :
    endsLine (unlines indent (l :: ls)) = true := by
  rw [endsLine_iff]
  induction ls generalizing l with
  | nil =>
    rw [unlines_cons, unlines_nil, List.append_nil]
    exact List.suffix_append _ _
  | cons m ms ih =>
    rw [unlines_cons]
    exact (ih m).trans (List.suffix_append _ _)

/-- Taking the spaces in front of a text away does not touch its last line end. -/
theorem dropSpaces_chomp_append_lineEnd {t : Text} (h : endsLine t = true) :
    dropSpaces (chomp t) ++ lineEnd = dropSpaces t := by
  obtain ⟨u, rfl⟩ := (endsLine_iff t).1 h
  rw [chomp_append_lineEnd]
  induction u with
  | nil => rfl
  | cons c u ih =>
    by_cases hc : c = ' '
    · subst hc
      exact ih (endsLine_append_lineEnd u)
    · simp [dropSpaces, hc]

/-- A line loses the spaces in front of it, but no glyph behind it. -/
theorem dropSpaces_append_lineEnd (l t : Text) :
    dropSpaces (l ++ lineEnd ++ t) = dropSpaces l ++ lineEnd ++ t := by
  induction l with
  | nil => rfl
  | cons c l ih =>
    by_cases hc : c = ' '
    · subst hc
      exact ih
    · simp [dropSpaces, hc]

/-- A label stands in front of the first line that it introduces. -/
theorem labelled_unlines (indent : Nat) (label l : Text) (ls : List Text) :
    labelled indent label (unlines indent (l :: ls)) =
      unlines indent ((label ++ dropSpaces l) :: ls) := by
  have hlines : dropSpaces (unlines indent (l :: ls)) =
      dropSpaces l ++ lineEnd ++ unlines indent ls := by
    rw [unlines_cons, List.append_assoc (spaces indent), List.append_assoc (spaces indent),
      dropSpaces_spaces_append, dropSpaces_append_lineEnd]
  rw [labelled, List.append_assoc, dropSpaces_chomp_append_lineEnd (endsLine_unlines ..), hlines,
    unlines_cons]
  simp only [List.append_assoc]

/-! ## Texts of whole lines -/

/-- A text is made of lines, and the indentation only puts spaces in front of each of them. -/
def Lined (text : Nat → Text) : Prop :=
  ∃ ls : List Text, (∀ l ∈ ls, l.Unbroken) ∧ ∀ indent, text indent = unlines indent ls

namespace Lined

variable {f g : Nat → Text} {t : Text}

theorem nil : Lined fun _ => [] := ⟨[], nofun, fun _ => rfl⟩

theorem append (hf : Lined f) (hg : Lined g) : Lined fun indent => f indent ++ g indent := by
  obtain ⟨ls, hls, hf⟩ := hf
  obtain ⟨ms, hms, hg⟩ := hg
  refine ⟨ls ++ ms, List.forall_mem_append.2 ⟨hls, hms⟩, fun indent => ?_⟩
  show f indent ++ g indent = unlines indent (ls ++ ms)
  rw [hf, hg, unlines_append]

/-- A text with its line end is one line. -/
theorem single (h : t.Unbroken) : Lined fun indent => spaces indent ++ t ++ lineEnd :=
  ⟨[t], List.forall_mem_singleton.2 h, fun _ => (List.append_nil _).symm⟩

/-- Lines that stand further to the right are lines. -/
theorem shift (h : Lined f) (n : Nat) : Lined fun indent => f (indent + n) := by
  obtain ⟨ls, hls, hf⟩ := h
  refine ⟨ls.map (spaces n ++ ·), fun l hl => ?_, fun indent => ?_⟩
  · obtain ⟨m, hm, rfl⟩ := List.mem_map.1 hl
    exact (unbroken_spaces n).append (hls m hm)
  · show f (indent + n) = unlines indent (ls.map (spaces n ++ ·))
    rw [hf, unlines_add]

/-- A text in its own line, or nothing if the text is empty. -/
theorem line (h : t.Unbroken) : Lined fun indent => line indent t := by
  cases t with
  | nil => exact nil
  | cons c t => exact single h

/-- A label introduces lines, or stands in a line by itself. -/
theorem labelled {label : Text} (hlabel : label.Unbroken) (h : Lined f) :
    Lined fun indent => labelled indent label (f indent) := by
  obtain ⟨ls, hls, hf⟩ := h
  simp only [hf]
  cases ls with
  | nil =>
    -- nothing follows the label
    have hempty (indent : Nat) :
        Text.labelled indent label [] = spaces indent ++ label ++ lineEnd := by
      rw [Text.labelled]
      exact congrArg (· ++ lineEnd) (List.append_nil _)
    simp only [unlines_nil, hempty]
    exact single hlabel
  | cons l ls =>
    obtain ⟨hl, hls⟩ := List.forall_mem_cons.1 hls
    refine ⟨(label ++ dropSpaces l) :: ls, ?_, fun indent => labelled_unlines indent label l ls⟩
    exact List.forall_mem_cons.2 ⟨hlabel.append hl.dropSpaces, hls⟩

/-- Whole lines need no line end. -/
theorem endLine (hf : Lined f) : Lined fun indent => endLine (f indent) := by
  obtain ⟨ls, hls, hf⟩ := hf
  refine ⟨ls, hls, fun indent => ?_⟩
  show Text.endLine (f indent) = unlines indent ls
  rw [hf]
  cases ls with
  | nil => rfl
  | cons l ls =>
    have hempty : ¬(unlines indent (l :: ls)).isEmpty := by simp [lineEnd]
    rw [Text.endLine, if_neg hempty, endsLine_unlines, if_pos rfl]

/-- Lines and a text behind them are lines once the text is given its line end. -/
theorem endLine_append (hf : Lined f) (h : t.Unbroken) (ht : t ≠ []) :
    Lined fun indent => Text.endLine (f indent ++ (spaces indent ++ t)) := by
  have hend (indent : Nat) : Text.endLine (f indent ++ (spaces indent ++ t)) =
      f indent ++ (spaces indent ++ t ++ lineEnd) := by
    have hempty : ¬(f indent ++ (spaces indent ++ t)).isEmpty := by simp [ht]
    have hopen : endsLine (f indent ++ (spaces indent ++ t)) = false := by
      rw [← List.append_assoc]
      exact endsLine_append_of_unbroken _ h ht
    rw [Text.endLine, if_neg hempty, hopen, if_neg Bool.false_ne_true, List.append_assoc]
  simp only [hend]
  exact hf.append (single h)

/-- A text by itself is a line once it is given its line end. -/
theorem endLine_spaces_append (h : t.Unbroken) (ht : t ≠ []) :
    Lined fun indent => Text.endLine (spaces indent ++ t) :=
  nil.endLine_append h ht

end Lined

end Text

open Text

/-! ## Texts without line ends -/

/-- The members of a class have no line ends. -/
def CharClass.Unbroken : CharClass → Prop
  | set members _ => members.Unbroken
  | unterminated => True

/-- The counts of bounds have no line ends. -/
def Bound.Unbroken : Bound → Prop
  | exactly count => count.Unbroken
  | atLeast least => least.Unbroken
  | between least most => least.Unbroken ∧ most.Unbroken

/-- The counts of a quantifier have no line ends. -/
def Quantifier.Unbroken : Quantifier → Prop
  | bounded bound _ => bound.Unbroken
  | unterminated => True

/-- The names of a group have no line ends. -/
def GroupKind.Unbroken : GroupKind → Prop
  | named name => name.Unbroken
  | balancing first second => first.Unbroken ∧ second.Unbroken
  | _ => True

/-- The texts of an atom have no line ends. What has a description of its own has one that is not
empty, because an empty one would be a line at some indentations only. -/
def Atom.Unbroken : Atom → Prop
  | literal text => text.Unbroken
  | special text => text.Unbroken ∧ text ≠ []
  | charClass cls => cls.Unbroken
  | quantifier bounds => bounds.Unbroken

namespace Node

mutual

/-- The texts of a node, at any depth, have no line ends. -/
def Unbroken : Node → Prop
  | atom a => a.Unbroken
  | bar _ => True
  | group kind body => kind.Unbroken ∧ UnbrokenAll body
  | bare kind => kind.Unbroken
  | ifThen condition yes => UnbrokenAll condition ∧ UnbrokenAll yes
  | ifThenElse condition yes no => UnbrokenAll condition ∧ UnbrokenAll yes ∧ UnbrokenAll no
termination_by structural n => n

/-- The texts of nodes, at any depth, have no line ends. -/
def UnbrokenAll : List Node → Prop
  | [] => True
  | n :: ns => Unbroken n ∧ UnbrokenAll ns
termination_by structural ns => ns

end

end Node

/-! ## Descriptions -/

theorem Text.unbroken_intercalate {separator : Text} (h : separator.Unbroken) {ts : List Text}
    (hts : ∀ t ∈ ts, t.Unbroken) : Unbroken (List.intercalate separator ts) := by
  induction ts with
  | nil => exact nofun
  | cons t ts ih =>
    obtain ⟨ht, hts⟩ := List.forall_mem_cons.1 hts
    cases ts with
    | nil =>
      rw [List.intercalate_singleton]
      exact ht
    | cons u ts =>
      rw [List.intercalate_cons_cons]
      exact (ht.append h).append (ih hts)

theorem CharClass.unbroken_describe {c : CharClass} (h : c.Unbroken) : c.describe.Unbroken := by
  rcases c with ⟨members, _ | _⟩ | _
  · have hlabel : Text.Unbroken "Any character in \"".toList := by decide +kernel
    exact (hlabel.append h).append (by decide)
  · have hlabel : Text.Unbroken "Any character not in \"".toList := by decide +kernel
    exact (hlabel.append h).append (by decide)
  · decide +kernel

theorem Bound.unbroken_describe {b : Bound} (h : b.Unbroken) : b.describe.Unbroken := by
  have htimes : Text.Unbroken " times".toList := by decide +kernel
  have hleast : Text.Unbroken "At least ".toList := by decide +kernel
  cases b with
  | exactly count =>
    have hexactly : Text.Unbroken "Exactly ".toList := by decide +kernel
    exact (hexactly.append h).append htimes
  | atLeast least => exact (hleast.append h).append htimes
  | between least most =>
    have hmost : Text.Unbroken ", but not more than ".toList := by decide +kernel
    exact (((hleast.append h.1).append hmost).append h.2).append htimes

theorem Quantifier.unbroken_describe {q : Quantifier} (h : q.Unbroken) :
    q.describe.Unbroken := by
  rcases q with ⟨bound, _ | _⟩ | _
  · exact bound.unbroken_describe h
  · have hlazy : lazyMark.Unbroken := by decide +kernel
    exact (bound.unbroken_describe h).append hlazy
  · decide +kernel

theorem Setting.unbroken_describe (s : Setting) : s.describe.Unbroken := by
  obtain ⟨flag, enabled⟩ := s
  cases flag <;> cases enabled <;> decide +kernel

/-- The heading of a group has no line ends but those of its names. -/
theorem GroupKind.unbroken_describe {k : GroupKind} (h : k.Unbroken) :
    k.describe.Unbroken := by
  cases k with
  | named name =>
    have hlabel : Text.Unbroken "Capture to <".toList := by decide +kernel
    exact (hlabel.append h).append (by decide)
  | balancing first second =>
    have hlabel : Text.Unbroken "Balancing Group <".toList := by decide +kernel
    have hbetween : Text.Unbroken ">-<".toList := by decide +kernel
    exact (((hlabel.append h.1).append hbetween).append h.2).append (by decide)
  | settings list =>
    have hlabel : Text.Unbroken "Set options to ".toList := by decide +kernel
    have hcomma : Text.Unbroken ", ".toList := by decide +kernel
    refine hlabel.append (unbroken_intercalate hcomma fun t ht => ?_)
    obtain ⟨s, -, rfl⟩ := List.mem_map.1 ht
    exact s.unbroken_describe
  | lookaround direction negated =>
    cases direction <;> cases negated <;> decide +kernel
  | capture | nonCapturing | nonBacktracking | conditional => decide +kernel

theorem Atom.unbroken_describe {a : Atom} (h : a.Unbroken) : a.describe.Unbroken := by
  cases a with
  | literal text => exact h
  | special text => exact h.1
  | charClass cls => exact cls.unbroken_describe h
  | quantifier bounds => exact bounds.unbroken_describe h

namespace Node

/-! ## Lines of nodes -/

mutual

/-- A node that is no literal is rendered as lines, once it is given a line end. -/
theorem lined_render : (n : Node) → n.Unbroken → n.literal? = none →
    Lined fun indent => endLine (render indent n)
  | atom a, h, hliteral => by
    have hdescribe : a.describe ≠ [] := by
      cases a with
      | literal text => cases hliteral
      | special text => exact h.2
      | charClass cls => exact ne_nil_of_isVisible cls.isVisible_describe
      | quantifier bounds => exact ne_nil_of_isVisible bounds.isVisible_describe
    exact Lined.endLine_spaces_append (Atom.unbroken_describe h) hdescribe
  | bar _, _, _ => by
    have hor : Text.Unbroken (spaces 2 ++ "or".toList) := by decide +kernel
    have hlines := Lined.endLine_spaces_append hor (by simp)
    simp only [← List.append_assoc, ← spaces_add] at hlines
    exact hlines
  | bare kind, h, _ =>
    Lined.endLine_spaces_append (kind.unbroken_describe h)
      (ne_nil_of_isVisible kind.isVisible_describe)
  | group kind body, h, _ => by
    have hheading := Lined.single (kind.unbroken_describe h.1)
    have hbody := (lined_renderFrom body h.2 [] nofun).shift 2
    have hend : Text.Unbroken "End Capture".toList := by decide +kernel
    have hlines := (hheading.append hbody).endLine_append hend (by simp)
    simp only [← List.append_assoc] at hlines
    exact hlines
  | ifThen condition yes, h, _ => by
    have hcondition := lined_renderFrom condition h.1 [] nofun
    have hyes := lined_renderFrom yes h.2 [] nofun
    have hif : Text.Unbroken "if: ".toList := by decide +kernel
    have hmatch : Text.Unbroken "match: ".toList := by decide +kernel
    exact ((hcondition.labelled hif).append (hyes.labelled hmatch)).endLine
  | ifThenElse condition yes no, h, _ => by
    have hcondition := lined_renderFrom condition h.1 [] nofun
    have hyes := lined_renderFrom yes h.2.1 [] nofun
    have hno := lined_renderFrom no h.2.2 [] nofun
    have hif : Text.Unbroken "if: ".toList := by decide +kernel
    have hmatch : Text.Unbroken "match: ".toList := by decide +kernel
    have helse : Text.Unbroken "else match: ".toList := by decide +kernel
    have hparts := (hcondition.labelled hif).append (hyes.labelled hmatch)
    exact (hparts.append (hno.labelled helse)).endLine

/-- Nodes are rendered as lines. -/
theorem lined_renderFrom : (ns : List Node) → UnbrokenAll ns → (run : Text) → run.Unbroken →
    Lined fun indent => renderFrom indent run ns
  | [], _, run, hrun => Lined.line hrun
  | n :: ns, h, run, hrun => by
    cases hn : n.literal? with
    | some text =>
      obtain rfl := (literal?_eq_some_iff n text).1 hn
      simp only [renderFrom_literal]
      exact lined_renderFrom ns h.2 (run ++ text) (hrun.append h.1)
    | none =>
      have hnode := lined_render n h.1 hn
      have hrest := lined_renderFrom ns h.2 [] nofun
      simp only [renderFrom_cons _ _ hn]
      exact ((Lined.line hrun).append hnode).append hrest

end

/-- An explanation of nodes is made of lines, at any indentation the same ones. -/
theorem lined_renderAll {ns : List Node} (h : UnbrokenAll ns) :
    Lined fun indent => renderAll indent ns :=
  lined_renderFrom ns h [] nofun

end Node

end RegexGloss
