import RegexGloss.Proofs.Reader.Tracks
import RegexGloss.Proofs.Token.Append

/-!
# Descents come to an end

Every construct is read with some glyphs of the pattern, and with no others. So a descent gets
further with each construct, and it is never refused (`Descent.Tracks`). One step of a sequence
relies on what is read inside groups, which are entered behind their parentheses
(`tracks_sequence_succ`); more steps than there are glyphs are enough for the whole
(`tracks_sequence`).

Main statement: `Descent.pattern_after`.
-/

namespace RegexGloss

/-! ## Tokens of openers -/

namespace Opener

variable {o : Opener}

/-- All openers of conditionals are the same. -/
theorem eq_of_conditional {t : Text} (h : read? t = some o) (hkind : o.kind = .conditional) :
    o = ⟨.conditional, 1, true⟩ := by
  have hconditional := conditional?_eq_some_of_kind h hkind
  unfold conditional? at hconditional
  split at hconditional <;> cases hconditional
  rfl

/-- An opener before no body is a whole group. -/
theorem token_of_bare (hbody : o.hasBody = false) (hkind : o.kind ≠ .conditional) :
    o.token = .bareGroup o.kind := by
  obtain ⟨kind, width, hasBody⟩ := o
  obtain rfl : hasBody = false := hbody
  cases kind with
  | conditional => exact absurd rfl hkind
  | _ => rfl

end Opener

namespace Descent

/-! ## Atoms and bars -/

section

variable {r : Reader} {a : Assembly} {g : Char} {t : Text} (ht : r.pattern.drop a.offset = g :: t)

include ht

/-- A construct of one token is a node with the glyphs of the token. -/
theorem tracks_leaf {token : Token} {width : Nat} (hnext : r.next g t = ⟨token, width + 1⟩)
    {y : Nat → Descent Node} {n : Node}
    (hstep : Assembly.step r.options a ⟨token, width + 1⟩ = .ok (a.leaf n (width + 1)))
    (hy : Passes (y a.offset) (g :: t) n (width + 1)) :
    Tracks r (r.outcome a) (fun m b => a.offset < b.offset ∧ r.Adds a [m] b)
      (spanned y (r.reach a)) := by
  have hle := Reader.offset_add_width_le ht
  rw [← hnext] at hstep
  rw [hnext] at hle
  rw [← ht] at hy
  refine tracks_spanned ?_
  rw [hy.reach hle]
  refine .goes ({ a with nodes := n :: a.nodes }.advance (width + 1)) rfl ?_
  exact Reader.adds_of_step ht hstep rfl rfl

/-- Glyphs that are too few for a token stop reading at the end of the pattern. -/
theorem tracks_truncatedEscape (hnext : r.next g t = ⟨.truncatedEscape, t.length + 1⟩)
    {y : Nat → Descent Node} (hy : RunsOut (y a.offset) (g :: t)) :
    Tracks r (r.outcome a) (fun m b => a.offset < b.offset ∧ r.Adds a [m] b)
      (spanned y (r.reach a)) := by
  have hlength := congrArg List.length ht
  rw [List.length_drop, List.length_cons] at hlength
  have hend : a.offset + (t.length + 1) = r.pattern.length := by omega
  rw [← ht] at hy
  refine tracks_spanned ?_
  rw [hy.reach (by omega), hlength]
  refine .stops (h := ⟨⟨.endOfPattern, _⟩, _⟩) (Reader.outcome_of_step_eq_error ht ?_)
  rw [hnext, ← hend]
  rfl

end

/-- Glyphs that start no larger construct, no escape and no bar are read as atoms. -/
theorem exists_atom_of_readGlyph {c : Char} (t : Text) (hopen : c ≠ '(') (hclose : c ≠ ')')
    (hescape : c ≠ '\\') (hbar : c ≠ '|') :
    ∃ a, (Token.readGlyph c t).1 = .atom a := by
  unfold Token.readGlyph Token.readRepeat
  split
  · exact absurd rfl hopen
  · exact absurd rfl hclose
  · exact ⟨_, rfl⟩
  · exact absurd rfl hescape
  · exact ⟨_, rfl⟩
  · exact absurd rfl hbar
  -- a space and the anchors
  iterate 4 exact ⟨_, rfl⟩
  -- the quantifiers of one glyph
  iterate 3
    split
    · exact ⟨_, rfl⟩
    · exact ⟨_, rfl⟩
  exact ⟨_, rfl⟩

/-! ## Groups -/

/-- Wherever it starts behind a glyph of the pattern, a descent reads all constructs there are. -/
def FillsBehind (r : Reader) (start : Nat) (body : Descent (List Node)) : Prop :=
  ∀ a : Assembly, start < a.offset → a.offset ≤ r.pattern.length →
    Tracks r (r.outcome a) (r.Fills a) (body (r.reach a))

section

variable {r : Reader} {a : Assembly} {t : Text} {body : Descent (List Node)}
  (hbody : FillsBehind r a.offset body)

include hbody

/-- The branches of a conditional make up a choice with its condition, or there is a surplus bar
among them. -/
theorem tracks_branches {condition : List Node} {b : Assembly}
    (hframes : b.frames = .branches a.offset condition a.nodes :: a.frames) (hnodes : b.nodes = [])
    (hlt : a.offset < b.offset) (hwithin : b.offset ≤ r.pattern.length)
    (hresult : r.outcome b = r.outcome a) :
    Tracks r (r.outcome a) (fun n d => b.offset ≤ d.offset ∧ r.Chooses a n d)
      (branches body condition (r.reach b)) := by
  rw [← hresult]
  refine (hbody b hlt hwithin).bind fun ns d hd => ?_
  have hns : d.nodes.reverse = ns := hd.nodes_reverse_eq hnodes
  have hopen := hd.frames_eq.trans hframes
  cases hchoice : Node.ofBranches condition ns with
  | error pos =>
    obtain ⟨hclose, hfinish⟩ := Assembly.stuck_of_surplusBar hopen (hns ▸ hchoice)
    rw [← hd.outcome_eq]
    exact .stops (Reader.outcome_of_ended hd.ended hclose hfinish)
  | ok choice =>
    exact .goes d rfl ⟨hd.offset_le, {
      frames_eq := ⟨condition, hopen, hns ▸ hchoice⟩
      offset_lt := Nat.lt_of_lt_of_le hlt hd.offset_le
      ended := hd.ended
      outcome_eq := hd.outcome_eq.trans hresult }⟩

variable (ht : r.pattern.drop a.offset = '(' :: t)

include ht

/-- A conditional is read from the parenthesis of its condition on, and is marked from there. -/
theorem tracks_conditional (hnext : r.next '(' t = ⟨.openCondition, 3⟩) :
    Tracks r (r.outcome a)
      (fun n e => a.offset + 2 < e.offset ∧ ∃ b, e = b.mark n (a.offset + 2) ∧ r.Chooses a n b)
      (conditional body (r.reach (a.gap.advance 2))) := by
  have hstep : Assembly.step r.options a (r.next '(' t) =
      .ok (a.enter (.condition a.offset a.nodes) 3) := by
    rw [hnext]
    rfl
  obtain ⟨-, hresult⟩ := Reader.outcome_of_step ht hstep
  have hle := Reader.offset_add_width_le ht
  rw [hnext] at hle
  have hlt : a.offset < a.offset + 3 := Nat.lt_add_of_pos_right (Nat.succ_pos 2)
  have hadvance : advance (r.reach (a.gap.advance 2)) =
      .ok () (r.reach ((a.gap.advance 2).advance 1)) := advance_reach hle
  rw [← hresult]
  refine tracks_spanned (a := a.gap.advance 2)
    (Q := fun n e => ∃ b, e = b.mark n (a.offset + 2) ∧ r.Chooses a n b) ?_
  rw [bind_of_ok hadvance, bind_of_ok (closeRun_reach r _ _)]
  -- the condition
  refine (hbody (a.enter (.condition a.offset a.nodes) 3) hlt hle).bind fun condition b hb => ?_
  have hframes : b.frames = .condition a.offset a.nodes :: a.frames := hb.frames_eq
  have hclose := Assembly.close_of_condition hframes
  rw [hb.nodes_reverse_eq rfl] at hclose
  rw [← hb.outcome_eq]
  refine (tracks_expectClose hb.ended rfl hclose (Assembly.finish_of_condition hframes)).bind ?_
  rintro - - ⟨rfl, hend, hrest⟩
  -- the branches
  have hb_le : a.offset + 3 ≤ b.offset := hb.offset_le
  have hb_lt : a.offset < b.offset + 1 := by omega
  rw [bind_of_ok (closeRun_reach r _ _), hb.outcome_eq, hresult]
  refine (tracks_branches (b := (b.leave (.branches a.offset condition a.nodes :: a.frames) []).gap)
    hbody rfl rfl hb_lt hend (hrest.trans (hb.outcome_eq.trans hresult))).mono ?_
  rintro n d ⟨hd_le, hd⟩
  have hd_lt : b.offset + 1 ≤ d.offset := hd_le
  have hd_start : a.offset + 2 < d.offset := by omega
  exact ⟨hd_start, d, rfl, hd⟩

/-- A conditional is one node with the choice that it makes. -/
theorem tracks_enclosed_conditional (hnext : r.next '(' t = ⟨.openCondition, 3⟩) :
    Tracks r (r.outcome a) (fun n b => a.offset < b.offset ∧ r.Adds a [n] (b.mark n a.offset))
      (enclosed body .conditional a.offset (r.reach (a.gap.advance 2))) := by
  have hnodes := (tracks_conditional hbody ht hnext).bind (f := fun n => pure [n])
    (Q := fun ns e => ∃ n b, ns = [n] ∧ e = b.mark n (a.offset + 2) ∧ r.Chooses a n b)
    fun n e ⟨_, b, he, hb⟩ => .goes e rfl ⟨n, b, rfl, he, hb⟩
  rw [enclosed, if_pos rfl]
  refine hnodes.bind ?_
  rintro - - ⟨n, b, rfl, rfl, hb⟩
  obtain ⟨condition, hframes, hchoice⟩ := hb.frames_eq
  rw [← hb.outcome_eq]
  refine (tracks_expectClose (d := b.mark n (a.offset + 2)) hb.ended rfl
    (Assembly.close_of_branches hframes hchoice)
    (Assembly.finish_of_branches hframes hchoice)).bind ?_
  rintro - - ⟨rfl, hend, hrest⟩
  refine .goes
    ((b.mark n (a.offset + 2)).leave a.frames (.group .conditional [n] :: a.nodes)) rfl ?_
  exact Reader.adds_leave (b := b.mark n (a.offset + 2)) hb.offset_lt hend
    (hrest.trans hb.outcome_eq)

/-- A group that is no conditional is one node with its body. -/
theorem tracks_enclosed {kind : GroupKind} {token : Token} {width : Nat}
    (hkind : kind ≠ .conditional) (hnext : r.next '(' t = ⟨token, width + 1⟩)
    (hstep : Assembly.step r.options a ⟨token, width + 1⟩ =
      .ok (a.enter (.group a.offset kind a.nodes) (width + 1))) :
    Tracks r (r.outcome a) (fun n b => a.offset < b.offset ∧ r.Adds a [n] (b.mark n a.offset))
      (enclosed body kind a.offset (r.reach (a.gap.advance (width + 1)))) := by
  rw [← hnext] at hstep
  obtain ⟨-, hresult⟩ := Reader.outcome_of_step ht hstep
  have hle := Reader.offset_add_width_le ht
  rw [hnext] at hle
  have hlt : a.offset < a.offset + (width + 1) := Nat.lt_add_of_pos_right (Nat.succ_pos _)
  rw [← hresult, enclosed, if_neg hkind]
  refine (hbody (a.enter (.group a.offset kind a.nodes) (width + 1)) hlt hle).bind fun ns b hb => ?_
  have hframes : b.frames = .group a.offset kind a.nodes :: a.frames := hb.frames_eq
  have hclose := Assembly.close_of_group hframes
  rw [hb.nodes_reverse_eq rfl] at hclose
  rw [← hb.outcome_eq]
  refine (tracks_expectClose hb.ended rfl hclose (Assembly.finish_of_group hframes)).bind ?_
  rintro - - ⟨rfl, hend, hrest⟩
  refine .goes (b.leave a.frames (.group kind ns :: a.nodes)) rfl ?_
  exact Reader.adds_leave (Nat.lt_of_lt_of_le hlt hb.offset_le) hend
    (hrest.trans (hb.outcome_eq.trans hresult))

/-- What follows an opener is a body, or there is none. -/
theorem tracks_opened {o : Opener} (hopener : Opener.read? t = some o)
    (hnext : r.next '(' t = ⟨o.token, o.reach + 1⟩) :
    Tracks r (r.outcome a) (fun n b => a.offset < b.offset ∧ r.Adds a [n] (b.mark n a.offset))
      ((if o.hasBody then enclosed body o.kind a.offset else pure (.bare o.kind))
        (r.reach (a.gap.advance (o.width + 1)))) := by
  by_cases hkind : o.kind = .conditional
  · obtain rfl := Opener.eq_of_conditional hopener hkind
    exact tracks_enclosed_conditional hbody ht hnext
  · rw [Opener.reach, if_neg hkind] at hnext
    cases hhas : o.hasBody with
    | true =>
      rw [Opener.token_of_hasBody hhas hkind] at hnext
      exact tracks_enclosed hbody ht hkind hnext rfl
    | false =>
      rw [Opener.token_of_bare hhas hkind] at hnext
      have hstep : Assembly.step r.options a (r.next '(' t) =
          .ok (a.gap.leaf (.bare o.kind) (o.width + 1)) := by
        rw [hnext]
        rfl
      refine .goes ({ a with nodes := .bare o.kind :: a.nodes }.gap.advance (o.width + 1)) rfl ?_
      exact Reader.adds_of_step ht hstep rfl rfl

/-- A group is one node, whatever its opener. -/
theorem tracks_group
    (hnext : r.next '(' t = ⟨(Token.readOpening t).1, (Token.readOpening t).2 + 1⟩) :
    Tracks r (r.outcome a) (fun n b => a.offset < b.offset ∧ r.Adds a [n] (b.mark n a.offset))
      (group body a.offset (r.reach a)) := by
  have hrest : r.pattern.drop (a.offset + 1) = t := by
    rw [← List.drop_drop, ht]
    rfl
  have hlength := congrArg List.length ht
  rw [List.length_drop, List.length_cons] at hlength
  rw [group, bind_of_ok (advance_reach (by omega)), bind_of_ok (closeRun_reach r _ _)]
  by_cases hquestion : t.head? = some '?'
  · obtain ⟨u, rfl⟩ := List.head?_eq_some_iff.1 hquestion
    rw [Token.readOpening_question] at hnext
    cases hopener : Opener.read? ('?' :: u) with
    | none =>
      -- the fault is found behind the parenthesis and points at it
      rw [hopener] at hnext
      rw [bind_of_error (opener_of_read?_eq_none (r := r.reach (a.gap.advance 1)) hrest hopener _)]
      refine .stops (h := ⟨⟨.unknownGroup, a.offset⟩, (a.gap.advance 1)⟩)
        (Reader.outcome_of_step_eq_error ht ?_)
      rw [hnext]
      rfl
    | some o =>
      simp only [hopener, Option.map_some, Option.getD_some] at hnext
      have hwidth := Opener.width_le_of_read?_eq_some hopener
      have hend : (a.gap.advance 1).offset + o.width ≤ r.pattern.length := by
        change a.offset + 1 + o.width ≤ r.pattern.length
        omega
      have hplace : (a.gap.advance 1).advance o.width = a.gap.advance (o.width + 1) := by
        rw [Nat.add_comm]
        simp only [Assembly.advance, Assembly.gap, Nat.add_assoc]
      have hpasses := passes_opener hopener a.offset
      rw [← hrest] at hpasses
      rw [bind_of_ok (Passes.reach (a := (a.gap.advance 1)) hpasses hend), hplace]
      exact tracks_opened hbody ht hopener hnext
  · rw [Token.readOpening_of_head?_ne hquestion] at hnext
    have hpeek : (r.reach (a.gap.advance 1)).peek ≠ some '?' := by
      rwa [Reader.peek, show (r.reach (a.gap.advance 1)).remaining = t from hrest]
    have hkind : Assembly.plainKind r.options ≠ .conditional := by
      unfold Assembly.plainKind
      split <;> decide
    rw [bind_of_ok (opener_of_peek_ne hpeek _)]
    exact tracks_enclosed hbody ht hkind hnext rfl

end

/-! ## Sequences -/

/-- A construct is one node and takes up some glyphs. -/
theorem tracks_construct {r : Reader} {a : Assembly} {c : Char} {t : Text}
    {body : Descent (List Node)} (hbody : FillsBehind r a.offset body)
    (ht : r.pattern.drop a.offset = c :: t)
    (hnext : r.next c t = ⟨(Token.readGlyph c t).1, (Token.readGlyph c t).2 + 1⟩)
    (hclose : c ≠ ')') :
    Tracks r (r.outcome a) (fun n b => a.offset < b.offset ∧ r.Adds a [n] b)
      (construct body c (r.reach a)) := by
  unfold construct
  split
  · exact tracks_spanned (tracks_group hbody ht hnext)
  · exact tracks_leaf ht hnext rfl (((passes_charClass t).map _).advance_bind _)
  · cases he : Escape.read? t with
    | some read =>
      obtain ⟨e, width⟩ := read
      rw [Token.readGlyph, he] at hnext
      exact tracks_leaf ht hnext rfl (((passes_escape he).map _).advance_bind _)
    | none =>
      rw [Token.readGlyph, he] at hnext
      exact tracks_truncatedEscape ht hnext ((runsOut_escape he).bind.advance_bind _)
  · exact tracks_leaf ht hnext rfl (((passes_quantifier t).map _).advance_bind _)
  · refine tracks_leaf ht hnext rfl (Passes.advance_bind ?_ _)
    exact passes_pure t _
  · rename_i hopen _ hescape _ hbar
    obtain ⟨atom, hatom⟩ := exists_atom_of_readGlyph t hopen hclose hescape hbar
    rw [hatom] at hnext
    exact tracks_leaf ht hnext rfl (((passes_character (Prod.ext hatom rfl)).map _).advance_bind _)

/-- What is read next is filled up by what follows. -/
theorem tracks_rest {r : Reader} {a b : Assembly} {ms : List Node} {body : Descent (List Node)}
    (hbody : FillsBehind r a.offset body) (hb : a.offset < b.offset ∧ r.Adds a ms b) :
    Tracks r (r.outcome a) (fun ns c => r.Fills a (ms ++ ns) c) (body (r.reach b)) := by
  obtain ⟨hlt, hadds⟩ := hb
  rw [← hadds.outcome_eq]
  exact (hbody b hlt hadds.within).mono fun ns c hc => hadds.trans_fills hc

/-- A step of a sequence gets further, and so does what is read inside groups. What follows can
therefore be left to fewer steps. -/
theorem tracks_sequence_succ {r : Reader} {a : Assembly} {fuel : Nat}
    (ha : a.offset ≤ r.pattern.length) (hbody : FillsBehind r a.offset (sequence fuel)) :
    Tracks r (r.outcome a) (r.Fills a) (sequence (fuel + 1) (r.reach a)) := by
  have hoffset : offset (r.reach a) = .ok a.offset (r.reach a) := rfl
  have hoptions : options (r.reach a) = .ok r.options (r.reach a) := rfl
  have hpeek : peek (r.reach a) = .ok (r.pattern.drop a.offset).head? (r.reach a) := rfl
  rw [sequence, bind_of_ok hoffset, bind_of_ok hoptions, bind_of_ok hpeek]
  cases ht : r.pattern.drop a.offset with
  | nil => exact .goes a rfl ⟨.refl ha, .inl ht⟩
  | cons c t =>
    have hle := Reader.offset_add_width_le ht
    have hskipped {token : Token} {width : Nat} (hnext : r.next c t = ⟨token, width⟩)
        (hstep : Assembly.step r.options a ⟨token, width⟩ = .ok (a.gap.advance width)) :
        a.offset < (a.gap.advance width).offset ∧ r.Adds a [] (a.gap.advance width) := by
      rw [← hnext] at hstep
      exact Reader.adds_of_step ht hstep rfl rfl
    simp only [List.head?_cons]
    -- a blank that is skipped
    split
    · rename_i hblank
      have hnext : r.next c t = ⟨.blank, 1⟩ := by rw [Reader.next, Token.read, if_pos hblank]
      have hadds := hskipped hnext rfl
      rw [hnext] at hle
      rw [bind_of_ok (advance_reach hle), bind_of_ok (closeRun_reach r _ _),
        bind_of_ok (further_reach hadds.1)]
      exact tracks_rest hbody hadds
    rename_i hblank
    -- a comment that is skipped, which is read up to the end of its line
    split
    · rename_i hcomment
      obtain rfl : c = '#' := by simpa using (Bool.and_eq_true_iff.1 hcomment).2
      have hnext : r.next '#' t =
          ⟨.comment, (t.takeWhile fun c => !Token.endsComment c).length + 1⟩ := by
        rw [Reader.next, Token.read, if_neg hblank, if_pos hcomment]
      have hadds := hskipped hnext rfl
      have hpasses := passes_takeAllWhile (fun c => !Token.endsComment c) ('#' :: t)
      rw [List.takeWhile_cons_of_pos (by decide), List.length_cons, ← ht] at hpasses
      rw [hnext] at hle
      rw [bind_of_ok (hpasses.reach hle), bind_of_ok (closeRun_reach r _ _),
        bind_of_ok (further_reach hadds.1)]
      exact tracks_rest hbody hadds
    rename_i hcomment
    -- a parenthesis that closes the group around, or a construct
    split
    · rename_i hclose
      exact .goes a rfl ⟨.refl ha, .inr ⟨t, hclose ▸ ht⟩⟩
    · rename_i hclose
      have hnext := Reader.next_of_not_skipped hblank hcomment t
      refine (tracks_construct hbody ht hnext hclose).bind fun n b hadds => ?_
      rw [bind_of_ok (further_reach hadds.1)]
      exact (tracks_rest hbody hadds).bind fun ns e he => .goes e rfl he

/-- A sequence is read up to its end in more steps than there are glyphs. -/
theorem tracks_sequence {r : Reader} {fuel : Nat} {a : Assembly} (ha : a.offset ≤ r.pattern.length)
    (hfuel : r.pattern.length - a.offset < fuel) :
    Tracks r (r.outcome a) (r.Fills a) (sequence fuel (r.reach a)) := by
  induction fuel generalizing a with
  | zero => exact absurd hfuel (Nat.not_lt_zero _)
  | succ fuel ih => exact tracks_sequence_succ ha fun b hlt hb => ih hb (by omega)

/-! ## Whole patterns -/

/-- A read of the rest of a pattern, as a descent that has come to an end. -/
def ofRead : Except Fault Explanation × Reader → EStateM.Result Stop Reader Explanation
  | (.ok e, r) => .ok e r
  | (.error f, r) => .error (.fault f) r

/-- With enough steps, a descent that starts within a pattern comes to what a read comes to. -/
theorem pattern_eq_ofRead {r : Reader} (hr : r.offset ≤ r.pattern.length) {fuel : Nat}
    (hfuel : r.remaining.length < fuel) : pattern fuel r = ofRead r.read := by
  rw [Reader.remaining, List.length_drop] at hfuel
  have htracks := tracks_sequence (a := { offset := r.offset }) hr hfuel
  change Tracks r _ _ (sequence fuel r) at htracks
  generalize hres : sequence fuel r = res at htracks
  rw [Reader.read_eq]
  cases htracks with
  | @goes ns s b hs h =>
    subst hs
    have hframes : b.frames = [] := h.frames_eq
    have htree : b.nodes.reverse = ns := h.nodes_reverse_eq rfl
    have hatEnd : atEnd (r.reach b) = .ok (r.reach b).atEnd (r.reach b) := rfl
    rw [pattern, bind_of_ok hres, bind_of_ok hatEnd, ← h.outcome_eq]
    rcases h.ended with ht | ⟨t, ht⟩
    · have hend : (r.reach b).atEnd = true := decide_eq_true (List.drop_eq_nil_iff.1 ht)
      have hfinish := (Assembly.finish_eq_ok_iff b b).2 ⟨hframes, rfl⟩
      rw [if_pos hend, Reader.outcome_of_nil ht, hfinish, ← htree]
      rfl
    · have hlt : b.offset < r.pattern.length := by
        have hle := Reader.offset_add_width_le ht
        rwa [Reader.next_close] at hle
      have hend : ¬(r.reach b).atEnd = true := fun h => Nat.not_le_of_lt hlt (of_decide_eq_true h)
      have hstep : Assembly.step r.options b (r.next ')' t) =
          .error ⟨⟨.surplusClose, b.offset⟩, b⟩ := by
        rw [Reader.next_close, Assembly.step, Assembly.close, hframes]
        rfl
      rw [if_neg hend, Reader.outcome_of_step_eq_error ht hstep]
      rfl
  | @stops h hresult =>
    rw [pattern, bind_of_error hres, hresult]
    rfl

/-- However often a pattern has been read before, a descent through the rest of it comes to an end
within one step more than there are glyphs, and further steps change nothing. It comes to what a
read comes to, and it is not refused: no part of it goes past the end of the pattern, every step of
a sequence gets further, and every node is registered behind its start. -/
theorem pattern_after (t : Text) (o : Options) (times extra : Nat) :
    let r := Reader.after { pattern := t, options := o } times
    pattern (r.remaining.length + 1 + extra) r = ofRead r.read ∧
      ∀ why s, pattern (r.remaining.length + 1 + extra) r ≠ .error (.refusal why) s := by
  intro r
  obtain ⟨hpattern, hoffset⟩ := Reader.after_within (r := { pattern := t, options := o })
    (Nat.zero_le _) times
  have hread : pattern (r.remaining.length + 1 + extra) r = ofRead r.read :=
    pattern_eq_ofRead (by rw [hpattern]; exact hoffset) (by omega)
  refine ⟨hread, fun why s hrefused => ?_⟩
  rw [hread] at hrefused
  generalize r.read = read at hrefused
  obtain ⟨result, r'⟩ := read
  cases result <;> cases hrefused

/-- Two steps are too few for two glyphs: the end of the pattern has to be found, too. -/
example : ∃ s, pattern 2 { pattern := ['a', 'b'], options := {} } = .error (.refusal .endless) s :=
  ⟨_, rfl⟩

end Descent

end RegexGloss
