import RegexGloss.Proofs.Construct.Explanation
import RegexGloss.Proofs.Token.Locality

/-!
# What stops reading

A pattern that cannot be explained starts with groups that are open, an `Enclosure`, and the
constructs inside the innermost one. Then comes something that cannot be taken there, or the end of
the pattern. `Enclosure.Halts` lists the ways in which this happens, with the fault of each: its
place is counted in glyphs from where reading started, so it does not depend on the options or on
what was read before.

Main statements: `Assembly.exists_reached_iff` for tokens taken from any place on, and
`explain_eq_error_iff` for a whole pattern.
-/

namespace RegexGloss

/-- A fault so many glyphs further on. -/
def Fault.shift (distance : Nat) (f : Fault) : Fault := { f with pos := f.pos + distance }

theorem Fault.shift_mk (distance : Nat) (cause : Cause) (pos : Nat) :
    shift distance ⟨cause, pos⟩ = ⟨cause, pos + distance⟩ := rfl

@[simp]
theorem Fault.shift_zero (f : Fault) : f.shift 0 = f := rfl

namespace Node

/-! ## Surplus bars -/

theorem bar?_eq_some_iff (n : Node) (pos : Nat) : n.bar? = some pos ↔ n = bar pos := by
  unfold bar?
  split <;> simp_all

/-- Branches are no choice exactly if a bar stands behind another one, and the second bar is the
one reported. -/
theorem ofBranches_eq_error_iff (condition branches : List Node) (pos : Nat) :
    ofBranches condition branches = .error pos ↔
      ∃ before after, branches = before ++ bar pos :: after ∧ bars before = 1 := by
  unfold ofBranches splitBranches
  constructor
  · intro h
    rcases exists_split_bars branches with ⟨hdrop, -⟩ | ⟨first, no, hdrop, hbranches, -⟩
    · simp only [hdrop] at h
      cases h
    · simp only [hdrop] at h
      cases hsecond : no.findSome? bar? with
      | none =>
        simp only [hsecond] at h
        cases h
      | some second =>
        simp only [hsecond, Except.map, Except.error.injEq] at h
        subst h
        obtain ⟨middle, n, after, hno, hn, hmiddle⟩ := List.findSome?_eq_some_iff.1 hsecond
        obtain rfl := (bar?_eq_some_iff n second).1 hn
        have hmiddle : bars middle = 0 :=
          (findSome?_bar?_eq_none_iff middle).1 (List.findSome?_eq_none_iff.2 hmiddle)
        refine ⟨branches.takeWhile (·.bar?.isNone) ++ bar first :: middle, after, ?_, ?_⟩
        · rw [List.append_assoc, List.cons_append, ← hno]
          exact hbranches
        · rw [bars_append, bars_takeWhile, bars, List.countP_cons_of_pos rfl, ← bars, hmiddle]
  · rintro ⟨before, after, rfl, hbefore⟩
    rcases exists_split_bars before with ⟨-, hnone⟩ | ⟨first, middle, hdrop, -, hone⟩
    · omega
    · have hmiddle : middle.findSome? bar? = none :=
        (findSome?_bar?_eq_none_iff middle).2 (by omega)
      have hsecond : (middle ++ bar pos :: after).findSome? bar? = some pos := by
        rw [List.findSome?_append, hmiddle]
        rfl
      have hdrop : (before ++ bar pos :: after).dropWhile (·.bar?.isNone) =
          bar first :: (middle ++ bar pos :: after) := by
        rw [List.dropWhile_append, hdrop]
        rfl
      simp only [hdrop, hsecond]
      rfl

end Node

namespace Construct

/-- A bar among the nodes of constructs is that of a construct, with the nodes of those before it
in front. -/
theorem exists_bar_of_nodesAll_eq {o : Options} {offset pos : Nat} {cs : List Construct}
    {before after : List Node} (h : nodesAll o offset cs = before ++ .bar pos :: after) :
    ∃ first rest, cs = first ++ .bar :: rest ∧ nodesAll o offset first = before ∧
      offset + widthAll first = pos := by
  induction cs generalizing offset before with
  | nil => simp at h
  | cons c cs ih =>
    rw [nodesAll_cons] at h
    rcases List.append_eq_append_iff.1 h with ⟨middle, rfl, hcs⟩ | ⟨middle, hc, hbar⟩
    · obtain ⟨first, rest, rfl, rfl, rfl⟩ := ih hcs
      exact ⟨c :: first, rest, rfl, nodesAll_cons .., by rw [widthAll_cons, Nat.add_assoc]⟩
    · cases middle with
      | nil =>
        rw [List.append_nil] at hc
        have hcs : nodesAll o (offset + c.width) cs = [] ++ .bar pos :: after := hbar.symm
        obtain ⟨first, rest, rfl, hfirst, rfl⟩ := ih hcs
        exact ⟨c :: first, rest, rfl, by rw [nodesAll_cons, hfirst, hc, List.append_nil],
          by rw [widthAll_cons, Nat.add_assoc]⟩
      | cons n middle =>
        -- the bar is a node of the first construct, and only a bar has such a node
        rw [List.cons_append] at hbar
        obtain ⟨rfl, -⟩ := List.cons.inj hbar
        have hmem : Node.bar pos ∈ c.nodes o offset :=
          hc ▸ List.mem_append_right _ List.mem_cons_self
        cases c with
        | bar =>
          obtain ⟨rfl, hn⟩ := List.append_eq_singleton_iff.1 hc.symm |>.resolve_right (by simp)
          cases hn
          exact ⟨[], cs, rfl, rfl, rfl⟩
        | _ => simp [nodes, Literal.node] at hmem

/-- Constructs make up no branches exactly if a bar stands behind another one. -/
theorem ofBranches_nodesAll_eq_error_iff (o : Options) (condition : List Node) (offset : Nat)
    (cs : List Construct) (pos : Nat) :
    Node.ofBranches condition (nodesAll o offset cs) = .error pos ↔
      ∃ first rest, cs = first ++ .bar :: rest ∧ first.countP isBar = 1 ∧
        offset + widthAll first = pos := by
  rw [Node.ofBranches_eq_error_iff]
  constructor
  · rintro ⟨before, after, hnodes, hbefore⟩
    obtain ⟨first, rest, hcs, rfl, hpos⟩ := exists_bar_of_nodesAll_eq hnodes
    exact ⟨first, rest, hcs, by rwa [← bars_nodesAll o offset], hpos⟩
  · rintro ⟨first, rest, rfl, hfirst, rfl⟩
    refine ⟨nodesAll o offset first, nodesAll o (offset + widthAll first + 1) rest, ?_, ?_⟩
    · rw [nodesAll_append, nodesAll_cons, width_bar]
      rfl
    · rwa [bars_nodesAll]

end Construct

open Construct

namespace Enclosure

/-! ## Enclosures at other places -/

/-- The number of glyphs up to the start of the innermost open group. -/
def width (e : Enclosure) : Nat := (e.lexemes.map Lexeme.width).sum

theorem width_group (outer : Enclosure) (before : List Construct) (heading : Option GroupKind)
    (extra : Nat) :
    (group outer before heading extra).width = outer.width + widthAll before + (extra + 1) := by
  simp [width, lexemes, widthAll, opening, Nat.add_assoc]

theorem width_condition (outer : Enclosure) (before : List Construct) :
    (condition outer before).width = outer.width + widthAll before + 3 := by
  simp [width, lexemes, widthAll, openingCondition, Nat.add_assoc]

theorem width_branches (outer : Enclosure) (before test : List Construct) :
    (branches outer before test).width = outer.width + widthAll before + 4 + widthAll test := by
  simp [width, lexemes, widthAll, openingCondition, closing]
  omega

/-- The glyphs before the innermost open group have been read when it starts. -/
theorem offset_assembly (o : Options) (base : Assembly) (e : Enclosure) :
    (e.assembly o base).offset = base.offset + e.width := by
  induction e with
  | none => rfl
  | group outer before heading extra ih =>
    simp only [assembly, Assembly.enterGroup, Assembly.enter, Assembly.advance, Assembly.gap,
      Assembly.offset_extend, ih, width_group, Nat.add_assoc]
  | condition outer before ih =>
    simp only [assembly, Assembly.enterCondition, Assembly.enter, Assembly.advance, Assembly.gap,
      Assembly.offset_extend, ih, width_condition, Nat.add_assoc]
  | branches outer before test ih =>
    simp only [assembly, Assembly.enterBranches, Assembly.enterCondition, Assembly.enter,
      Assembly.advance, Assembly.gap, Assembly.offset_extend, ih, width_branches]
    omega

/-- The tokens of an enclosure open its groups. -/
theorem run_lexemes (o : Options) (base : Assembly) (e : Enclosure) (h : e.Proper) :
    Assembly.run o base e.lexemes = .ok (e.assembly o base) := by
  induction e with
  | none => rfl
  | group outer before heading extra ih =>
    rw [lexemes, List.append_assoc, Assembly.run_append_of_run (ih h.1),
      Assembly.run_append_of_run (Assembly.run_lexemesAll o _ before h.2), Assembly.run_singleton]
    exact Assembly.step_opening o _ heading extra
  | condition outer before ih =>
    rw [lexemes, List.append_assoc, Assembly.run_append_of_run (ih h.1),
      Assembly.run_append_of_run (Assembly.run_lexemesAll o _ before h.2), Assembly.run_singleton]
    rfl
  | branches outer before test ih =>
    obtain ⟨houter, hbefore, htest⟩ := h
    rw [lexemes, List.append_assoc, Assembly.run_append_of_run (ih houter),
      Assembly.run_append_of_run (Assembly.run_lexemesAll o _ before hbefore),
      Assembly.run_cons_of_step (b := Assembly.enterCondition _) rfl,
      Assembly.run_append_of_run (Assembly.run_lexemesAll o _ test htest)]
    exact Assembly.run_closing_of_close (Assembly.close_enterCondition o _ test) o []

/-- Tokens start with those that open the groups of an enclosure and those of constructs behind
them, and `rest` is left. -/
structure Begins (e : Enclosure) (cs : List Construct) (rest ls : List Lexeme) : Prop where
  /-- The constructs between the open groups are proper. -/
  proper : e.Proper
  /-- The constructs inside the innermost group are proper. -/
  properAll : ProperAll cs
  /-- Together these are all the tokens. -/
  lexemes_eq : e.lexemes ++ lexemesAll cs ++ rest = ls

/-- The tokens that open groups and those of constructs behind them are taken first. -/
theorem Begins.run_eq {e : Enclosure} {cs : List Construct} {rest ls : List Lexeme}
    (h : e.Begins cs rest ls) (o : Options) (base : Assembly) :
    Assembly.run o base ls = Assembly.run o ((e.assembly o base).extend o cs) rest := by
  rw [← h.lexemes_eq, List.append_assoc, Assembly.run_append_of_run (e.run_lexemes o base h.proper),
    Assembly.run_append_of_run (Assembly.run_lexemesAll o _ cs h.properAll)]

/-! ## Faults -/

/-- What follows open groups and constructs cannot be taken. Positions are counted from where
reading started. -/
inductive Halts : Enclosure → List Construct → List Lexeme → Fault → Prop where
  /-- Glyphs are missing behind a backslash. -/
  | truncatedEscape (e : Enclosure) (cs : List Construct) (width : Nat) (rest : List Lexeme) :
    Halts e cs (⟨.truncatedEscape, width⟩ :: rest) ⟨.endOfPattern, e.width + widthAll cs + width⟩
  /-- A parenthesis opens no known kind of group. -/
  | unknownGroup (e : Enclosure) (cs : List Construct) (width : Nat) (rest : List Lexeme) :
    Halts e cs (⟨.unknownGroup, width⟩ :: rest) ⟨.unknownGroup, e.width + widthAll cs⟩
  /-- No group is open where one is closed. -/
  | surplusClose (cs : List Construct) (rest : List Lexeme) :
    Halts .none cs (closing :: rest) ⟨.surplusClose, widthAll cs⟩
  /-- The branches of a conditional end, and a bar stands behind the one between them. -/
  | surplusBar (outer : Enclosure) (before test first after : List Construct) (rest : List Lexeme)
    (hfirst : first.countP isBar = 1) (hrest : ∀ l ∈ rest.head?, l = closing) :
    Halts (.branches outer before test) (first ++ .bar :: after) rest
      ⟨.surplusBar, (branches outer before test).width + widthAll first⟩
  /-- A group is open at the end of the pattern. -/
  | unclosedGroup (outer : Enclosure) (before : List Construct) (heading : Option GroupKind)
    (extra : Nat) (cs : List Construct) :
    Halts (.group outer before heading extra) cs [] ⟨.unclosedGroup, outer.width + widthAll before⟩
  /-- A condition is open at the end of the pattern. -/
  | unclosedCondition (outer : Enclosure) (before cs : List Construct) :
    Halts (.condition outer before) cs [] ⟨.unclosedGroup, outer.width + widthAll before + 2⟩
  /-- The branches of a conditional are open at the end of the pattern. -/
  | unclosedBranches (outer : Enclosure) (before test cs : List Construct)
    (hcs : cs.countP isBar ≤ 1) :
    Halts (.branches outer before test) cs [] ⟨.unclosedGroup, outer.width + widthAll before⟩

end Enclosure

namespace Assembly

variable {o : Options} {base : Assembly} {e : Enclosure} {cs : List Construct} {f : Fault}

/-! ## Where a step stops -/

/-- The choice of a condition and branches that a conditional opens behind an assembly. -/
def choice (o : Options) (a : Assembly) (condition branches : List Construct) : Except Nat Node :=
  Node.ofBranches (nodesAll o (a.offset + 3) condition)
    (nodesAll o (a.offset + 4 + widthAll condition) branches)

theorem choice_eq_error_iff (a : Assembly) (condition branches : List Construct) (pos : Nat) :
    choice o a condition branches = .error pos ↔
      ∃ first rest, branches = first ++ .bar :: rest ∧ first.countP isBar = 1 ∧
        a.offset + 4 + widthAll condition + widthAll first = pos :=
  ofBranches_nodesAll_eq_error_iff ..

theorem exists_choice_eq_ok_iff (a : Assembly) (condition branches : List Construct) :
    (∃ n, choice o a condition branches = .ok n) ↔ branches.countP isBar ≤ 1 := by
  simp only [choice, Node.ofBranches_eq_ok_iff, bars_nodesAll, exists_and_left, exists_eq',
    and_true]

/-- Branches that make up no choice stop reading where they are closed. -/
theorem close_enterBranches_of_error (a : Assembly) {condition branches : List Construct}
    {pos : Nat} (h : choice o a condition branches = .error pos) :
    ((a.enterBranches o condition).extend o branches).close =
      ((a.enterBranches o condition).extend o branches).halt .surplusBar pos := by
  have hoffset : a.offset + 3 + widthAll condition + 1 = a.offset + 4 + widthAll condition := by
    omega
  rw [choice] at h
  simp [close, enterBranches, enterCondition, enter, extend, advance, gap, halt, hoffset, h]

/-- Open branches stop reading at the end, be it at a surplus bar or because they are open. -/
theorem finish_enterBranches (a : Assembly) (condition branches : List Construct) :
    ∃ reached, ((a.enterBranches o condition).extend o branches).finish =
      match choice o a condition branches with
      | .error pos => .error ⟨⟨.surplusBar, pos⟩, reached⟩
      | .ok _ => .error ⟨⟨.unclosedGroup, a.offset⟩, reached⟩ := by
  have hoffset : a.offset + 3 + widthAll condition + 1 = a.offset + 4 + widthAll condition := by
    omega
  cases h : choice o a condition branches <;> rw [choice] at h <;>
    simp [finish, enterBranches, enterCondition, enter, extend, advance, gap, halt, hoffset, h]

/-- Nothing but a closing parenthesis and tokens that are faults stops reading. -/
theorem exists_step_eq_ok (o : Options) (a : Assembly) {l : Lexeme} (hclose : l.token ≠ .close)
    (hfault : l.token.isFault = false) : ∃ b, step o a l = .ok b := by
  obtain ⟨token, width⟩ := l
  cases token with
  | close => exact absurd rfl hclose
  | truncatedEscape | unknownGroup => cases hfault
  | _ => exact ⟨_, rfl⟩

/-- Tokens that can be taken are no faults. -/
theorem isFault_of_run {o : Options} {a b : Assembly} {ls : List Lexeme}
    (h : run o a ls = .ok b) : ∀ l ∈ ls, l.token.isFault = false := by
  induction ls generalizing a with
  | nil => exact fun l hl => absurd hl List.not_mem_nil
  | cons l ls ih =>
    obtain ⟨c, hstep, hrun⟩ := (run_append_eq_ok_iff o a b [l] ls).1 h
    rw [run_singleton] at hstep
    intro k hk
    rcases List.mem_cons.1 hk with rfl | hk
    · obtain ⟨token, width⟩ := k
      cases token with
      | truncatedEscape | unknownGroup => cases hstep
      | _ => rfl
    · exact ih hrun k hk

/-- Branches that make up no choice have a surplus bar. -/
theorem exists_halts_of_choice {outer : Enclosure} {before test : List Construct}
    {rest : List Lexeme} (hrest : ∀ l ∈ rest.head?, l = closing) {pos : Nat}
    (h : choice o ((outer.assembly o base).extend o before) test cs = .error pos) :
    ∃ g, (Enclosure.branches outer before test).Halts cs rest g ∧
      g.shift base.offset = ⟨.surplusBar, pos⟩ := by
  obtain ⟨first, after, rfl, hfirst, rfl⟩ := (choice_eq_error_iff ..).1 h
  refine ⟨_, .surplusBar outer before test first after rest hfirst hrest, ?_⟩
  rw [offset_extend, Enclosure.offset_assembly, Enclosure.width_branches, Fault.shift_mk]
  congr 1
  omega

/-- A token at which reading stops halts it. -/
theorem exists_halts_of_step (hbase : base.frames = []) {l : Lexeme} (hl : l.Shaped) {h : Halt}
    (hstep : step o ((e.assembly o base).extend o cs) l = .error h) (rest : List Lexeme) :
    ∃ g, e.Halts cs (l :: rest) g ∧ g.shift base.offset = h.fault := by
  have hoffset := e.offset_assembly o base
  by_cases hclose : l.token = .close
  · obtain ⟨token, width⟩ := l
    obtain rfl : token = .close := hclose
    obtain rfl : width = 1 := hl.2
    replace hstep : ((e.assembly o base).extend o cs).close = .error h := hstep
    -- what the parenthesis would close decides whether it can stand there
    cases e with
    | none =>
      simp only [Enclosure.assembly, close, frames_extend, hbase, halt, Except.error.injEq] at hstep
      subst hstep
      exact ⟨_, .surplusClose cs rest, by simp [Fault.shift, Nat.add_comm]⟩
    | group outer before heading extra =>
      rw [Enclosure.assembly, close_enterGroup] at hstep
      cases hstep
    | condition outer before =>
      rw [Enclosure.assembly, close_enterCondition] at hstep
      cases hstep
    | branches outer before test =>
      rw [Enclosure.assembly] at hstep
      cases hchoice : choice o ((outer.assembly o base).extend o before) test cs with
      | error pos =>
        rw [close_enterBranches_of_error _ hchoice] at hstep
        cases hstep
        exact exists_halts_of_choice (by simp [closing]) hchoice
      | ok n =>
        have hbars := (exists_choice_eq_ok_iff _ test cs).1 ⟨n, hchoice⟩
        rw [(close_enterBranches_eq_ok_iff o _ _ test cs).2 ⟨hbars, rfl⟩] at hstep
        cases hstep
  · cases hfault : l.token.isFault with
    | false =>
      obtain ⟨b, hb⟩ := exists_step_eq_ok o ((e.assembly o base).extend o cs) hclose hfault
      rw [hb] at hstep
      cases hstep
    | true =>
      obtain ⟨token, width⟩ := l
      cases token with
      | truncatedEscape =>
        cases hstep
        exact ⟨_, .truncatedEscape e cs width rest, by simp [Fault.shift, hoffset]; omega⟩
      | unknownGroup =>
        cases hstep
        exact ⟨_, .unknownGroup e cs width rest, by simp [Fault.shift, hoffset]; omega⟩
      | _ => cases hfault

/-- A pattern that cannot end halts at its end. -/
theorem exists_halts_of_finish (hbase : base.frames = []) {h : Halt}
    (hfinish : ((e.assembly o base).extend o cs).finish = .error h) :
    ∃ g, e.Halts cs [] g ∧ g.shift base.offset = h.fault := by
  cases e with
  | none =>
    simp [Enclosure.assembly, finish, hbase] at hfinish
  | group outer before heading extra =>
    cases hfinish
    refine ⟨_, .unclosedGroup outer before heading extra cs, ?_⟩
    rw [Fault.shift_mk, offset_extend, Enclosure.offset_assembly]
    congr 1
    omega
  | condition outer before =>
    cases hfinish
    refine ⟨_, .unclosedCondition outer before cs, ?_⟩
    rw [Fault.shift_mk, offset_extend, Enclosure.offset_assembly]
    congr 1
    omega
  | branches outer before test =>
    obtain ⟨reached, hreached⟩ :=
      finish_enterBranches (o := o) ((outer.assembly o base).extend o before) test cs
    rw [Enclosure.assembly, hreached] at hfinish
    cases hchoice : choice o ((outer.assembly o base).extend o before) test cs with
    | error pos =>
      rw [hchoice] at hfinish
      cases hfinish
      exact exists_halts_of_choice (by simp) hchoice
    | ok n =>
      rw [hchoice] at hfinish
      cases hfinish
      have hbars := (exists_choice_eq_ok_iff _ test cs).1 ⟨n, hchoice⟩
      refine ⟨_, .unclosedBranches outer before test cs hbars, ?_⟩
      rw [Fault.shift_mk, offset_extend, Enclosure.offset_assembly]
      congr 1
      omega

/-! ## Where a run stops -/

/-- A run stops at some token if it cannot take them all. -/
theorem exists_step_of_run_eq_error {a : Assembly} {ls : List Lexeme} {h : Halt}
    (hrun : run o a ls = .error h) :
    ∃ before l after b, ls = before ++ l :: after ∧ run o a before = .ok b ∧
      step o b l = .error h := by
  induction ls generalizing a with
  | nil => cases hrun
  | cons l ls ih =>
    cases hstep : step o a l with
    | error halt =>
      rw [run_cons, hstep] at hrun
      cases hrun
      exact ⟨[], l, ls, a, rfl, rfl, hstep⟩
    | ok b =>
      rw [run_cons_of_step hstep] at hrun
      obtain ⟨before, l', after, c, rfl, hbefore, hl'⟩ := ih hrun
      exact ⟨l :: before, l', after, c, rfl, by rw [run_cons_of_step hstep, hbefore], hl'⟩

/-- A token that cannot be taken is the last one looked at. -/
theorem run_finish_of_step_eq_error {a : Assembly} {l : Lexeme} {h : Halt}
    (hstep : step o a l = .error h) (ls : List Lexeme) :
    run o a (l :: ls) >>= finish = .error h := by
  rw [run_cons, hstep]
  rfl

/-- Where groups and constructs are followed by what halts reading, it stops with that fault. -/
theorem exists_reached_of_halts (hbase : base.frames = []) {rest : List Lexeme}
    (h : e.Halts cs rest f) :
    ∃ reached, run o ((e.assembly o base).extend o cs) rest >>= finish =
      .error ⟨f.shift base.offset, reached⟩ := by
  have hoffset := e.offset_assembly o base
  cases h with
  | truncatedEscape _ _ width rest =>
    refine ⟨((e.assembly o base).extend o cs).advance width, run_finish_of_step_eq_error ?_ rest⟩
    have hpos : base.offset + e.width + widthAll cs + width =
        e.width + widthAll cs + width + base.offset := by omega
    simp only [step, halt, offset_extend, hoffset, Fault.shift_mk, hpos]
  | unknownGroup _ _ width rest =>
    refine ⟨((e.assembly o base).extend o cs).gap.advance width,
      run_finish_of_step_eq_error ?_ rest⟩
    have hpos : base.offset + e.width + widthAll cs = e.width + widthAll cs + base.offset := by
      omega
    simp only [step, halt, offset_extend, hoffset, Fault.shift_mk, hpos]
  | surplusClose cs rest =>
    refine ⟨base.extend o cs, run_finish_of_step_eq_error ?_ rest⟩
    rw [Fault.shift_mk, Nat.add_comm]
    simp only [step, closing, close, Enclosure.assembly, frames_extend, hbase, halt, offset_extend]
  | surplusBar outer before test first after rest hfirst hrest =>
    -- the same bar is found by a closing parenthesis and at the end
    have hchoice := (choice_eq_error_iff (o := o) ((outer.assembly o base).extend o before) test
      (first ++ .bar :: after) _).2 ⟨first, after, rfl, hfirst, rfl⟩
    have hpos : ((outer.assembly o base).extend o before).offset + 4 + widthAll test +
        widthAll first = (Enclosure.branches outer before test).width + widthAll first +
          base.offset := by
      rw [offset_extend, Enclosure.offset_assembly, Enclosure.width_branches]
      omega
    rw [hpos] at hchoice
    rw [Fault.shift_mk]
    cases rest with
    | nil =>
      obtain ⟨reached, hreached⟩ := finish_enterBranches (o := o)
        ((outer.assembly o base).extend o before) test (first ++ .bar :: after)
      rw [hchoice] at hreached
      exact ⟨reached, hreached⟩
    | cons l rest =>
      obtain rfl := hrest l rfl
      refine ⟨((Enclosure.branches outer before test).assembly o base).extend o
        (first ++ .bar :: after), run_finish_of_step_eq_error ?_ rest⟩
      exact close_enterBranches_of_error _ hchoice
  | unclosedGroup outer before heading extra cs =>
    refine ⟨((Enclosure.group outer before heading extra).assembly o base).extend o cs, ?_⟩
    rw [Fault.shift_mk, Nat.add_comm, ← Nat.add_assoc, ← Enclosure.offset_assembly o base outer]
    rfl
  | unclosedCondition outer before cs =>
    refine ⟨((Enclosure.condition outer before).assembly o base).extend o cs, ?_⟩
    rw [Fault.shift_mk, Nat.add_comm, ← Nat.add_assoc, ← Nat.add_assoc,
      ← Enclosure.offset_assembly o base outer]
    rfl
  | unclosedBranches outer before test cs hcs =>
    obtain ⟨reached, hreached⟩ := finish_enterBranches (o := o)
      ((outer.assembly o base).extend o before) test cs
    obtain ⟨n, hn⟩ := (exists_choice_eq_ok_iff (o := o)
      ((outer.assembly o base).extend o before) test cs).2 hcs
    rw [hn, offset_extend, Enclosure.offset_assembly] at hreached
    refine ⟨reached, ?_⟩
    rw [Fault.shift_mk, Nat.add_comm, ← Nat.add_assoc]
    exact hreached

/-- Reading tokens fails exactly if groups are open, constructs follow in the innermost one, and
what is behind them halts it. -/
theorem exists_reached_iff (hbase : base.frames = []) {ls : List Lexeme}
    (hls : ∀ l ∈ ls, l.Shaped) :
    (∃ reached, run o base ls >>= finish = .error ⟨f, reached⟩) ↔
      ∃ (e : Enclosure) (cs : List Construct) (rest : List Lexeme) (g : Fault),
        e.Begins cs rest ls ∧ e.Halts cs rest g ∧ g.shift base.offset = f := by
  constructor
  · rintro ⟨reached, h⟩
    cases hrun : run o base ls with
    | error halt =>
      rw [hrun] at h
      cases h
      obtain ⟨before, l, after, b, rfl, hbefore, hstep⟩ := exists_step_of_run_eq_error hrun
      obtain ⟨e, cs, he, hcs, rfl, rfl⟩ :=
        exists_describes_of_run hbase (fun l hl => hls l (List.mem_append_left _ hl)) hbefore
      obtain ⟨g, hg, hf⟩ := exists_halts_of_step hbase (hls l (by simp)) hstep after
      exact ⟨e, cs, l :: after, g, ⟨he, hcs, rfl⟩, hg, hf⟩
    | ok a =>
      rw [hrun] at h
      obtain ⟨e, cs, he, hcs, rfl, rfl⟩ := exists_describes_of_run hbase hls hrun
      obtain ⟨g, hg, hf⟩ := exists_halts_of_finish hbase h
      exact ⟨e, cs, [], g, ⟨he, hcs, List.append_nil _⟩, hg, hf⟩
  · rintro ⟨e, cs, rest, g, hbegins, hg, rfl⟩
    rw [hbegins.run_eq]
    exact exists_reached_of_halts hbase hg

end Assembly

/-- Reading the tokens of a pattern fails exactly if groups are open in it, constructs follow in the
innermost one, and what is behind them halts reading. -/
theorem exists_reached_lex_iff {pattern : Text} {o : Options} {f : Fault} :
    (∃ reached, Assembly.assemble o 0 (Lexeme.lex o.ignoreWhitespace pattern) =
        .error ⟨f, reached⟩) ↔
      ∃ (e : Enclosure) (cs : List Construct) (rest : List Lexeme),
        e.Begins cs rest (Lexeme.lex o.ignoreWhitespace pattern) ∧ e.Halts cs rest f := by
  rw [Assembly.assemble, Assembly.exists_reached_iff rfl fun _ => Lexeme.shaped_of_mem_lex]
  simp only [Fault.shift_zero]
  constructor
  · rintro ⟨e, cs, rest, g, hbegins, hhalts, rfl⟩
    exact ⟨e, cs, rest, hbegins, hhalts⟩
  · rintro ⟨e, cs, rest, hbegins, hhalts⟩
    exact ⟨e, cs, rest, f, hbegins, hhalts, rfl⟩

/-- A pattern has no explanation exactly if reading its tokens fails, and with the same fault. -/
theorem explain_eq_error_iff_exists_reached {pattern : Text} {o : Options} {f : Fault} :
    explain pattern o = .error f ↔ ∃ reached,
      Assembly.assemble o 0 (Lexeme.lex o.ignoreWhitespace pattern) = .error ⟨f, reached⟩ := by
  rw [explain, Reader.read]
  simp only [Reader.remaining, List.drop_zero]
  cases Assembly.assemble o 0 (Lexeme.lex o.ignoreWhitespace pattern) with
  | ok a => simp
  | error halt =>
    obtain ⟨fault, reached⟩ := halt
    simp

/-- A pattern has no explanation exactly if groups are open in it, constructs follow in the
innermost one, and what is behind them halts reading. -/
theorem explain_eq_error_iff {pattern : Text} {o : Options} {f : Fault} :
    explain pattern o = .error f ↔
      ∃ (e : Enclosure) (cs : List Construct) (rest : List Lexeme),
        e.Begins cs rest (Lexeme.lex o.ignoreWhitespace pattern) ∧ e.Halts cs rest f :=
  explain_eq_error_iff_exists_reached.trans exists_reached_lex_iff

end RegexGloss
