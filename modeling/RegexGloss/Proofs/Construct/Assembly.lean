import RegexGloss.Proofs.Construct.Basic
import RegexGloss.Proofs.Token.Shape
import Mathlib.Data.List.Induction

/-!
# Assembling constructs

Taking the tokens of proper constructs one by one puts together their nodes and their marks
(`Assembly.run_lexemesAll`). Conversely every assembly that can be reached is described by the
groups that are open, an `Enclosure`, and the constructs inside the innermost one
(`Assembly.exists_describes_of_run`). A pattern that is assembled to the end is therefore a list of
proper constructs, and nothing else is (`Assembly.assemble_eq_ok_iff`).

All that the converse needs of the tokens is that they are shaped (`Lexeme.Shaped`), as those of
any text are.
-/

namespace RegexGloss

namespace Assembly

open Construct

/-! ## Taking the tokens of constructs -/

/-- The assembly after constructs are taken. -/
def extend (o : Options) (a : Assembly) (cs : List Construct) : Assembly :=
  { a with
    offset := a.offset + widthAll cs
    nodes := (nodesAll o a.offset cs).reverse ++ a.nodes
    marks := marksAll o a.offset cs ++ a.marks }

@[simp]
theorem extend_nil (o : Options) (a : Assembly) : a.extend o [] = a := rfl

@[simp]
theorem offset_extend (o : Options) (a : Assembly) (cs : List Construct) :
    (a.extend o cs).offset = a.offset + widthAll cs := rfl

@[simp]
theorem frames_extend (o : Options) (a : Assembly) (cs : List Construct) :
    (a.extend o cs).frames = a.frames := rfl

theorem extend_append (o : Options) (a : Assembly) (cs ds : List Construct) :
    a.extend o (cs ++ ds) = (a.extend o cs).extend o ds := by
  simp [extend, widthAll_append, nodesAll_append, marksAll_append, Nat.add_assoc]

theorem extend_cons (o : Options) (a : Assembly) (c : Construct) (cs : List Construct) :
    a.extend o (c :: cs) = (a.extend o [c]).extend o cs :=
  extend_append o a [c] cs

/-- A first literal and those after it are taken like one run. -/
theorem extend_run_cons (o : Options) (a : Assembly) (first second : Literal)
    (more : List Literal) :
    a.extend o [.run first (second :: more)] =
      (a.extend o [.run first []]).extend o [.run second more] := by
  simp [extend, Construct.nodes, Construct.marks, Literal.marksAll, Literal.widthAll,
    Nat.add_assoc]

/-- The last literal of a run is taken after those before it. -/
theorem extend_run_concat (o : Options) (a : Assembly) (first : Literal) (more : List Literal)
    (last : Literal) :
    a.extend o [.run first (more ++ [last])] =
      (a.extend o [.run first more]).extend o [.run last []] := by
  induction more generalizing first a with
  | nil => exact extend_run_cons o a first last []
  | cons second more ih => rw [List.cons_append, extend_run_cons, ih, ← extend_run_cons]

/-- A literal is one node that takes up its own glyphs. -/
theorem extend_literal (o : Options) (a : Assembly) (l : Literal) :
    a.extend o [.run l []] = a.leaf l.node l.width := by
  simp [extend, leaf, mark, advance, Construct.nodes, Construct.marks, Literal.marksAll,
    Literal.widthAll, Literal.width, ← Nat.add_assoc]

/-- An atom is one node that takes up its own glyphs. -/
theorem extend_atom (o : Options) (a : Assembly) (atom : Atom) (extra : Nat) :
    a.extend o [.atom atom extra] = a.leaf (.atom atom) (extra + 1) := by
  simp [extend, leaf, mark, advance, Construct.nodes, Construct.marks, ← Nat.add_assoc]

/-- A bar is one node at its own position. -/
theorem extend_bar (o : Options) (a : Assembly) :
    a.extend o [.bar] = a.leaf (.bar a.offset) 1 := by
  simp [extend, leaf, mark, advance, Construct.nodes, Construct.marks]

/-- A group without a body is one node, before which no run of literals goes on. -/
theorem extend_bare (o : Options) (a : Assembly) (kind : GroupKind) (extra : Nat) :
    a.extend o [.bare kind extra] = a.gap.leaf (.bare kind) (extra + 1) := by
  simp [extend, leaf, mark, advance, gap, Construct.nodes, Construct.marks, ← Nat.add_assoc]

/-- What is skipped leaves a gap only. -/
theorem extend_skipped (o : Options) (a : Assembly) (comment : Bool) (extra : Nat) :
    a.extend o [.skipped comment extra] = a.gap.advance (extra + 1) := by
  simp [extend, advance, gap, Construct.nodes, Construct.marks]

/-- The assembly after a group is opened. -/
def enterGroup (o : Options) (a : Assembly) (heading : Option GroupKind) (extra : Nat) : Assembly :=
  a.enter (.group a.offset (heading.getD (plainKind o)) a.nodes) (extra + 1)

/-- The assembly after a conditional and its condition are opened. -/
def enterCondition (a : Assembly) : Assembly := a.enter (.condition a.offset a.nodes) 3

/-- The assembly after the condition of a conditional is closed. -/
def enterBranches (o : Options) (a : Assembly) (condition : List Construct) : Assembly :=
  ({ a.enterCondition.extend o condition with
    frames := .branches a.offset (nodesAll o (a.offset + 3) condition) a.nodes :: a.frames
    nodes := [] }.advance 1).gap

/-- Opening a group takes its first token. -/
theorem step_opening (o : Options) (a : Assembly) (heading : Option GroupKind) (extra : Nat) :
    a.step o (opening heading extra) = .ok (a.enterGroup o heading extra) := by
  cases heading <;> rfl

/-- Closing a group takes its last token. -/
theorem close_enterGroup (o : Options) (a : Assembly) (heading : Option GroupKind) (extra : Nat)
    (body : List Construct) :
    ((a.enterGroup o heading extra).extend o body).close =
      .ok (a.extend o [.group heading extra body]) := by
  simp [close, enterGroup, enter, extend, advance, gap, mark, nodes_group, groupNode,
    Construct.marks]
  omega

/-- Closing a condition leads to the branches. -/
theorem close_enterCondition (o : Options) (a : Assembly) (condition : List Construct) :
    (a.enterCondition.extend o condition).close = .ok (a.enterBranches o condition) := by
  simp [close, enterBranches, enterCondition, enter, extend, advance, gap]

/-- Closing the branches of a conditional takes its last token. There may be two at most. -/
theorem close_enterBranches_eq_ok_iff (o : Options) (a b : Assembly)
    (condition branches : List Construct) :
    ((a.enterBranches o condition).extend o branches).close = .ok b ↔
      branches.countP isBar ≤ 1 ∧ a.extend o [.conditional condition branches] = b := by
  have hoffset : a.offset + 3 + widthAll condition + 1 = a.offset + 4 + widthAll condition := by
    omega
  have hchoice := Node.ofBranches_eq_ok_iff (nodesAll o (a.offset + 3) condition)
    (nodesAll o (a.offset + 4 + widthAll condition) branches)
  rw [bars_nodesAll] at hchoice
  cases hr : Node.ofBranches (nodesAll o (a.offset + 3) condition)
      (nodesAll o (a.offset + 4 + widthAll condition) branches) with
  | error pos =>
    -- reading halts at the second bar
    have hbars : ¬branches.countP isBar ≤ 1 := by
      intro hle
      have := (hchoice _).2 ⟨hle, rfl⟩
      rw [hr] at this
      cases this
    simp [close, enterBranches, enterCondition, enter, extend, advance, gap, halt, hoffset, hr,
      hbars]
  | ok choice =>
    obtain ⟨hbars, rfl⟩ := (hchoice choice).1 hr
    simp [close, enterBranches, enterCondition, enter, extend, advance, gap, mark, hoffset, hr,
      hbars, nodes_conditional, choiceNode, Construct.marks]
    -- the offsets count the same glyphs in another order
    have hwidth : a.offset + 4 + widthAll condition + widthAll branches + 1 =
        a.offset + (widthAll condition + widthAll branches + 5) := by omega
    have hlast : a.offset + 4 + widthAll condition + widthAll branches - 1 =
        a.offset + 3 + widthAll condition + widthAll branches := by omega
    rw [hwidth, hlast]

/-! ## Runs over constructs -/

theorem run_cons_of_step {o : Options} {a b : Assembly} {l : Lexeme} (h : a.step o l = .ok b)
    (ls : List Lexeme) : run o a (l :: ls) = run o b ls := by
  rw [run_cons, h]
  rfl

theorem run_closing_of_close {a b : Assembly} (h : a.close = .ok b) (o : Options)
    (ls : List Lexeme) : run o a (closing :: ls) = run o b ls :=
  run_cons_of_step (l := closing) h ls

theorem run_append_of_run {o : Options} {a b : Assembly} {ls : List Lexeme}
    (h : run o a ls = .ok b) (ms : List Lexeme) : run o a (ls ++ ms) = run o b ms := by
  rw [run_append, h]
  rfl

/-- Tokens in two parts can be taken exactly if the first part leads to an assembly from which the
second part can be taken. -/
theorem run_append_eq_ok_iff (o : Options) (a b : Assembly) (ls ms : List Lexeme) :
    run o a (ls ++ ms) = .ok b ↔ ∃ c, run o a ls = .ok c ∧ run o c ms = .ok b := by
  rw [run_append]
  cases run o a ls with
  | error halt => simp [bind, Except.bind]
  | ok c => simp [bind, Except.bind]

theorem run_singleton (o : Options) (a : Assembly) (l : Lexeme) : run o a [l] = step o a l := by
  rw [run_cons]
  cases step o a l <;> rfl

/-- A pattern can end exactly if no group is open. -/
theorem finish_eq_ok_iff (a b : Assembly) : a.finish = .ok b ↔ a.frames = [] ∧ a = b := by
  unfold finish
  split
  · simp_all
  · simp_all [halt]
  · simp_all [halt]
  · split <;> simp_all [halt]

theorem assemble_eq_ok_iff_run (o : Options) (start : Nat) (ls : List Lexeme) (a : Assembly) :
    assemble o start ls = .ok a ↔ run o { offset := start } ls = .ok a ∧ a.frames = [] := by
  rw [assemble]
  cases run o { offset := start } ls with
  | error halt => simp [bind, Except.bind]
  | ok b =>
    simp only [bind, Except.bind, finish_eq_ok_iff, Except.ok.injEq]
    exact ⟨fun ⟨hb, he⟩ => ⟨he, he ▸ hb⟩, fun ⟨he, hb⟩ => ⟨he ▸ hb, he⟩⟩

/-- The tokens of literals are taken like one run. -/
theorem run_literals (o : Options) (a : Assembly) (first : Literal) (more : List Literal) :
    run o a ((first :: more).map Literal.lexeme) = .ok (a.extend o [.run first more]) := by
  have hstep (a : Assembly) (l : Literal) : a.step o l.lexeme = .ok (a.extend o [.run l []]) := by
    rw [extend_literal]
    rfl
  induction more generalizing first a with
  | nil => rw [List.map_singleton, run_cons_of_step (hstep a first), run_nil]
  | cons second more ih =>
    rw [List.map_cons, run_cons_of_step (hstep a first), ih, ← extend_run_cons]

mutual

/-- The tokens of a proper construct put its nodes and marks together. -/
theorem run_lexemes (o : Options) (a : Assembly) :
    (c : Construct) → c.Proper → run o a c.lexemes = .ok (a.extend o [c])
  | .skipped comment extra, _ => by
    rw [extend_skipped]
    cases comment <;> rfl
  | .run first more, _ => run_literals o a first more
  | .atom x extra, _ => by
    rw [extend_atom]
    rfl
  | .bar, _ => by
    rw [extend_bar]
    rfl
  | .bare kind extra, _ => by
    rw [extend_bare]
    rfl
  | .group heading extra body, h => by
    -- the body is taken inside the parenthesis, as if nothing came before it
    rw [lexemes, run_cons_of_step (step_opening o a heading extra),
      run_append_of_run (run_lexemesAll o _ body h)]
    exact run_closing_of_close (close_enterGroup o a heading extra body) o []
  | .conditional condition branches, h => by
    obtain ⟨hcondition, hbranches, hbars⟩ := h
    rw [lexemes, run_cons_of_step (show a.step o openingCondition = .ok a.enterCondition from rfl),
      run_append_of_run (run_lexemesAll o _ condition hcondition),
      run_closing_of_close (close_enterCondition o a condition),
      run_append_of_run (run_lexemesAll o _ branches hbranches)]
    exact run_closing_of_close
      ((close_enterBranches_eq_ok_iff o a _ condition branches).2 ⟨hbars, rfl⟩) o []

/-- The tokens of proper constructs put their nodes and marks together. -/
theorem run_lexemesAll (o : Options) (a : Assembly) :
    (cs : List Construct) → ProperAll cs → run o a (lexemesAll cs) = .ok (a.extend o cs)
  | [], _ => rfl
  | c :: cs, h => by
    rw [lexemesAll_cons, run_append_of_run (run_lexemes o a c h.1), run_lexemesAll o _ cs h.2.2,
      ← extend_cons]

end

end Assembly

/-! ## Groups that are open -/

open Construct

/-- The groups that are open at a place of a pattern, with the constructs before each of them. -/
inductive Enclosure where
  /-- No group is open. -/
  | none
  /-- The innermost open group. -/
  | group (outer : Enclosure) (before : List Construct) (heading : Option GroupKind) (extra : Nat)
  /-- The innermost open group is a conditional, and its condition is open too. -/
  | condition (outer : Enclosure) (before : List Construct)
  /-- The innermost open group is a conditional whose condition is closed. -/
  | branches (outer : Enclosure) (before test : List Construct)

namespace Enclosure

/-- The tokens up to the start of the innermost open group. -/
def lexemes : Enclosure → List Lexeme
  | none => []
  | group outer before heading extra =>
    outer.lexemes ++ lexemesAll before ++ [opening heading extra]
  | condition outer before => outer.lexemes ++ lexemesAll before ++ [openingCondition]
  | branches outer before test =>
    outer.lexemes ++ lexemesAll before ++ openingCondition :: (lexemesAll test ++ [closing])

/-- The assembly at the start of the innermost open group, given the one outside of all groups. -/
def assembly (o : Options) (base : Assembly) : Enclosure → Assembly
  | none => base
  | group outer before heading extra =>
    ((outer.assembly o base).extend o before).enterGroup o heading extra
  | condition outer before => ((outer.assembly o base).extend o before).enterCondition
  | branches outer before test =>
    ((outer.assembly o base).extend o before).enterBranches o test

/-- All constructs of an enclosure are proper. -/
def Proper : Enclosure → Prop
  | none => True
  | group outer before _ _ | condition outer before => outer.Proper ∧ ProperAll before
  | branches outer before test => outer.Proper ∧ ProperAll before ∧ ProperAll test

/-- What is open behind a closing parenthesis, with the constructs inside the innermost group. The
group that was the innermost one has become a construct, or goes on with its branches. -/
def close : Enclosure → List Construct → Enclosure × List Construct
  | none, cs => (none, cs)
  | group outer before heading extra, cs => (outer, before ++ [.group heading extra cs])
  | condition outer before, cs => (branches outer before cs, [])
  | branches outer before test, cs => (outer, before ++ [.conditional test cs])

/-- A closing parenthesis can stand behind constructs inside the innermost group: there is a group
to close, and at most one bar stands between the branches of a conditional. -/
def CanClose : Enclosure → List Construct → Prop
  | none, _ => False
  | group _ _ _ _, _ | condition _ _, _ => True
  | branches _ _ _, cs => cs.countP isBar ≤ 1

/-- A frame waits if a group is open. -/
theorem eq_none_of_frames_assembly {o : Options} {base : Assembly} {e : Enclosure}
    (h : (e.assembly o base).frames = []) : e = none := by
  cases e with
  | none => rfl
  | _ => cases h

variable {e : Enclosure} {cs : List Construct}

/-- A closing parenthesis is the last token of what it closes. -/
theorem lexemes_close (h : e.CanClose cs) :
    (e.close cs).1.lexemes ++ lexemesAll (e.close cs).2 =
      e.lexemes ++ lexemesAll cs ++ [closing] := by
  cases e with
  | none => exact h.elim
  | group | condition | branches =>
    simp [close, lexemes, lexemesAll_append, Construct.lexemes]

/-- What a closing parenthesis leaves open is proper. -/
theorem proper_close (he : e.Proper) (hcs : ProperAll cs) (h : e.CanClose cs) :
    (e.close cs).1.Proper ∧ ProperAll (e.close cs).2 := by
  cases e with
  | none => exact h.elim
  | group outer before heading extra => exact ⟨he.1, properAll_concat he.2 hcs rfl⟩
  | condition outer before => exact ⟨⟨he.1, he.2, hcs⟩, trivial⟩
  | branches outer before test => exact ⟨he.1, properAll_concat he.2.1 ⟨he.2.2, hcs, h⟩ rfl⟩

/-- A closing parenthesis is taken exactly if it can stand there. -/
theorem close_assembly_eq_ok_iff {o : Options} {base b : Assembly} (hbase : base.frames = []) :
    ((e.assembly o base).extend o cs).close = .ok b ↔
      e.CanClose cs ∧ ((e.close cs).1.assembly o base).extend o (e.close cs).2 = b := by
  cases e with
  | none => simp [assembly, CanClose, Assembly.close, hbase, Assembly.halt]
  | group outer before heading extra =>
    simp [assembly, CanClose, close, Assembly.close_enterGroup, Assembly.extend_append]
  | condition outer before =>
    simp [assembly, CanClose, close, Assembly.close_enterCondition]
  | branches outer before test =>
    simp [assembly, CanClose, close, Assembly.close_enterBranches_eq_ok_iff,
      Assembly.extend_append]

end Enclosure

namespace Assembly

/-- Tokens taken from an assembly on lead to one that is described by the groups opened since and
the constructs after the innermost opening parenthesis. -/
def Describes (o : Options) (base : Assembly) (ls : List Lexeme) (a : Assembly) (e : Enclosure)
    (cs : List Construct) : Prop :=
  e.Proper ∧ ProperAll cs ∧ e.lexemes ++ lexemesAll cs = ls ∧
    (e.assembly o base).extend o cs = a

/-- A literal is added to a run of literals, or starts one. -/
theorem exists_extend_literal {cs : List Construct} (hcs : ProperAll cs) (l : Literal) :
    ∃ ds, ProperAll ds ∧ lexemesAll ds = lexemesAll cs ++ [l.lexeme] ∧
      ∀ o a, extend o a ds = (a.extend o cs).extend o [.run l []] := by
  rcases List.eq_nil_or_concat cs with rfl | ⟨init, last, rfl⟩
  · exact ⟨[.run l []], properAll_singleton trivial, rfl, fun o a => rfl⟩
  rw [List.concat_eq_append] at hcs ⊢
  cases hlast : last.isRun with
  | false =>
    -- behind any other construct the literal starts a run
    refine ⟨init ++ [last] ++ [.run l []], ?_, by simp [lexemesAll_append, Construct.lexemes],
      fun o a => extend_append o a _ _⟩
    refine (properAll_append_iff _ _).2 ⟨hcs, properAll_singleton trivial, .inl ?_⟩
    simpa [EndsNoRun] using hlast
  | true =>
    -- the last run takes the literal in, and stays a run
    obtain ⟨first, more, rfl⟩ : ∃ first more, last = .run first more := by
      cases last <;> simp_all [isRun]
    obtain ⟨hinit, -, hend⟩ := (properAll_append_iff _ _).1 hcs
    refine ⟨init ++ [.run first (more ++ [l])], ?_,
      by simp [lexemesAll_append, Construct.lexemes], fun o a => ?_⟩
    · refine (properAll_append_iff _ _).2 ⟨hinit, properAll_singleton trivial, ?_⟩
      simpa [StartsNoRun, isRun] using hend
    · rw [extend_append, extend_run_concat, ← extend_append o a init]

namespace Describes

variable {o : Options} {base a b : Assembly} {ls : List Lexeme} {e : Enclosure}
  {cs : List Construct}

/-- A construct other than a run of literals is added behind the others. -/
theorem push (h : Describes o base ls a e cs) {c : Construct} (hc : c.Proper)
    (hrun : c.isRun = false) :
    Describes o base (ls ++ c.lexemes) (a.extend o [c]) e (cs ++ [c]) := by
  obtain ⟨he, hcs, rfl, rfl⟩ := h
  exact ⟨he, properAll_concat hcs hc hrun, by simp [lexemesAll_append], extend_append o _ cs [c]⟩

/-- A closing parenthesis closes the innermost open group. -/
theorem close (h : Describes o base ls a e cs) (hbase : base.frames = [])
    (hclose : a.close = .ok b) :
    Describes o base (ls ++ [closing]) b (e.close cs).1 (e.close cs).2 := by
  obtain ⟨he, hcs, rfl, rfl⟩ := h
  obtain ⟨hcan, rfl⟩ := (Enclosure.close_assembly_eq_ok_iff hbase).1 hclose
  obtain ⟨hproper, hproperAll⟩ := Enclosure.proper_close he hcs hcan
  exact ⟨hproper, hproperAll, Enclosure.lexemes_close hcan, rfl⟩

/-- A literal is added to the constructs read last. -/
theorem literal (h : Describes o base ls a e cs) (l : Literal) :
    ∃ e cs, Describes o base (ls ++ [l.lexeme]) (a.extend o [.run l []]) e cs := by
  obtain ⟨he, hcs, rfl, rfl⟩ := h
  obtain ⟨ds, hds, hlexemes, hextend⟩ := exists_extend_literal hcs l
  exact ⟨e, ds, he, hds, by rw [hlexemes, List.append_assoc], hextend o _⟩

/-- Every token that can be taken keeps an assembly describable. -/
theorem step (h : Describes o base ls a e cs) (hbase : base.frames = []) {l : Lexeme}
    (hl : l.Shaped) (hstep : a.step o l = .ok b) : ∃ e cs, Describes o base (ls ++ [l]) b e cs := by
  obtain ⟨token, width⟩ := l
  obtain ⟨hpos, hshape⟩ := hl
  simp only at hpos hshape
  obtain ⟨extra, rfl⟩ : ∃ extra, width = extra + 1 := ⟨width - 1, by omega⟩
  cases token with
  | blank =>
    cases hstep
    rw [← extend_skipped o a false]
    exact ⟨e, _, h.push (c := .skipped false extra) trivial rfl⟩
  | comment =>
    cases hstep
    rw [← extend_skipped o a true]
    exact ⟨e, _, h.push (c := .skipped true extra) trivial rfl⟩
  | atom atom =>
    cases hstep
    cases atom with
    | literal text =>
      rw [show a.leaf (.atom (.literal text)) (extra + 1) = _ from
        (extend_literal o a ⟨text, extra, hshape⟩).symm]
      exact h.literal ⟨text, extra, hshape⟩
    | _ =>
      rw [← extend_atom o]
      exact ⟨e, _, h.push (c := .atom _ extra) (by simp [Construct.Proper, Atom.kind]) rfl⟩
  | bar =>
    cases hstep
    cases hshape
    rw [← extend_bar o]
    exact ⟨e, _, h.push (c := .bar) trivial rfl⟩
  | bareGroup kind =>
    cases hstep
    rw [← extend_bare o]
    exact ⟨e, _, h.push (c := .bare kind extra) trivial rfl⟩
  -- an opening parenthesis puts the constructs before it into the enclosure
  | openPlain =>
    cases hstep
    obtain ⟨he, hcs, rfl, rfl⟩ := h
    exact ⟨.group e cs none extra, [], ⟨he, hcs⟩, trivial, by simp [Enclosure.lexemes, opening],
      rfl⟩
  | openGroup kind =>
    cases hstep
    obtain ⟨he, hcs, rfl, rfl⟩ := h
    exact ⟨.group e cs (some kind) extra, [], ⟨he, hcs⟩, trivial,
      by simp [Enclosure.lexemes, opening], rfl⟩
  | openCondition =>
    cases hstep
    cases hshape
    obtain ⟨he, hcs, rfl, rfl⟩ := h
    exact ⟨.condition e cs, [], ⟨he, hcs⟩, trivial,
      by simp [Enclosure.lexemes, openingCondition], rfl⟩
  | close =>
    cases hshape
    exact ⟨_, _, h.close hbase hstep⟩
  -- faults lead nowhere
  | truncatedEscape => cases hstep
  | unknownGroup => cases hstep

end Describes

/-- Every assembly that can be reached is described by open groups and constructs. -/
theorem exists_describes_of_run {o : Options} {base : Assembly} {ls : List Lexeme} {a : Assembly}
    (hbase : base.frames = []) (hls : ∀ l ∈ ls, l.Shaped) (h : run o base ls = .ok a) :
    ∃ e cs, Describes o base ls a e cs := by
  -- by induction on what was read last, because `Describes.step` adds a token at the end
  induction ls using List.reverseRecOn generalizing a with
  | nil =>
    cases h
    exact ⟨.none, [], trivial, trivial, rfl, rfl⟩
  | append_singleton ls l ih =>
    obtain ⟨b, hb, hstep⟩ := (run_append_eq_ok_iff ..).1 h
    rw [run_singleton] at hstep
    obtain ⟨e, cs, hdescribes⟩ := ih (fun l hl => hls l (List.mem_append_left _ hl)) hb
    exact hdescribes.step hbase (hls l (by simp)) hstep

/-- Between two places outside of all groups, constructs are taken. -/
theorem exists_extend_of_run {o : Options} {base : Assembly} {ls : List Lexeme} {a : Assembly}
    (hbase : base.frames = []) (hls : ∀ l ∈ ls, l.Shaped) (h : run o base ls = .ok a)
    (hframes : a.frames = []) :
    ∃ cs, ProperAll cs ∧ lexemesAll cs = ls ∧ extend o base cs = a := by
  obtain ⟨e, cs, -, hcs, hlexemes, rfl⟩ := exists_describes_of_run hbase hls h
  rw [frames_extend] at hframes
  obtain rfl := Enclosure.eq_none_of_frames_assembly hframes
  exact ⟨cs, hcs, hlexemes, rfl⟩

/-- Tokens are assembled to the end exactly if they write proper constructs. -/
theorem assemble_eq_ok_iff {o : Options} {start : Nat} {ls : List Lexeme} {a : Assembly}
    (hls : ∀ l ∈ ls, l.Shaped) :
    assemble o start ls = .ok a ↔
      ∃ cs, ProperAll cs ∧ lexemesAll cs = ls ∧ extend o { offset := start } cs = a := by
  rw [assemble_eq_ok_iff_run]
  constructor
  · rintro ⟨hrun, hframes⟩
    exact exists_extend_of_run rfl hls hrun hframes
  · rintro ⟨cs, hcs, rfl, rfl⟩
    exact ⟨run_lexemesAll o _ cs hcs, rfl⟩

end Assembly

end RegexGloss
