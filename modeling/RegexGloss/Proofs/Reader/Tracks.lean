import RegexGloss.Proofs.Reader.Passes
import RegexGloss.Proofs.Reader.Rereading

/-!
# Descents and assemblies

A descent takes the same glyphs in the same order as an assembly takes tokens. The reader that has
come as far as an assembly (`Reader.reach`) has the offset of the assembly, and its marks in the
index. What an assembly leads to (`Reader.outcome`) stays the same while tokens are taken.

`Descent.Tracks` says that a part of a descent has come as far as some assembly, or has stopped at
the fault that the assembly it started from leads to. Either way it was not refused.
-/

namespace RegexGloss

/-! ## Closing groups -/

namespace Assembly

variable {a : Assembly} {start : Nat} {before condition : List Node} {frames : List Frame}

/-- Goes on by a closing parenthesis, with other groups open. -/
def leave (a : Assembly) (frames : List Frame) (nodes : List Node) : Assembly :=
  { a with frames, nodes }.advance 1

theorem close_of_group {kind : GroupKind} (h : a.frames = .group start kind before :: frames) :
    a.close = .ok ((a.leave frames (.group kind a.nodes.reverse :: before)).mark
      (.group kind a.nodes.reverse) start) := by
  unfold close
  rw [h]
  rfl

theorem finish_of_group {kind : GroupKind} (h : a.frames = .group start kind before :: frames) :
    a.finish = .error ⟨⟨.unclosedGroup, start⟩, a⟩ := by
  unfold finish
  rw [h]
  rfl

theorem close_of_condition (h : a.frames = .condition start before :: frames) :
    a.close = .ok (a.leave (.branches start a.nodes.reverse before :: frames) []).gap := by
  unfold close
  rw [h]
  rfl

theorem finish_of_condition (h : a.frames = .condition start before :: frames) :
    a.finish = .error ⟨⟨.unclosedGroup, start + 2⟩, a⟩ := by
  unfold finish
  rw [h]
  rfl

section

variable (h : a.frames = .branches start condition before :: frames)

include h

theorem close_of_branches {choice : Node}
    (hchoice : Node.ofBranches condition a.nodes.reverse = .ok choice) :
    a.close = .ok ((a.mark choice (start + 2)).leave frames
      (.group .conditional [choice] :: before) |>.mark (.group .conditional [choice]) start) := by
  unfold close
  rw [h]
  simp only [hchoice]
  rfl

theorem finish_of_branches {choice : Node}
    (hchoice : Node.ofBranches condition a.nodes.reverse = .ok choice) :
    a.finish = .error ⟨⟨.unclosedGroup, start⟩, a.mark choice (start + 2)⟩ := by
  unfold finish
  rw [h]
  simp only [hchoice]
  rfl

theorem stuck_of_surplusBar {pos : Nat}
    (hchoice : Node.ofBranches condition a.nodes.reverse = .error pos) :
    a.close = .error ⟨⟨.surplusBar, pos⟩, a⟩ ∧ a.finish = .error ⟨⟨.surplusBar, pos⟩, a⟩ := by
  unfold close finish
  rw [h]
  simp only [hchoice]
  exact ⟨rfl, rfl⟩

end

end Assembly

namespace Reader

/-! ## Where a descent stands -/

/-- The reader that has come as far as an assembly. -/
def reach (r : Reader) (a : Assembly) : Reader :=
  { r with offset := a.offset, index := r.index.recordAll a.marks }

/-- What the glyphs behind an assembly lead to. -/
def outcome (r : Reader) (a : Assembly) : Except Halt Assembly :=
  Assembly.run r.options a
    (Lexeme.lex r.options.ignoreWhitespace (r.pattern.drop a.offset)) >>= Assembly.finish

/-- No construct follows an assembly: the next glyph is a closing parenthesis, or there is none. -/
def Ended (r : Reader) (a : Assembly) : Prop :=
  r.pattern.drop a.offset = [] ∨ ∃ t, r.pattern.drop a.offset = ')' :: t

/-- An assembly is what nodes have made of another one. Both lead to the same. -/
structure Adds (r : Reader) (a : Assembly) (ns : List Node) (b : Assembly) : Prop where
  /-- The same groups are open. -/
  frames_eq : b.frames = a.frames
  /-- The nodes come behind those that were there. -/
  nodes_eq : b.nodes = ns.reverse ++ a.nodes
  /-- They are read from where the others ended. -/
  offset_le : a.offset ≤ b.offset
  /-- They are part of the pattern. -/
  within : b.offset ≤ r.pattern.length
  /-- What follows is read in the same way. -/
  outcome_eq : r.outcome b = r.outcome a

/-- The nodes are all there are up to a closing parenthesis or the end of the pattern. -/
structure Fills (r : Reader) (a : Assembly) (ns : List Node) (b : Assembly) : Prop
    extends Adds r a ns b where
  /-- No construct follows. -/
  ended : r.Ended b

/-- The branches of a conditional are complete, and with the condition they make up a choice. -/
structure Chooses (r : Reader) (a : Assembly) (choice : Node) (b : Assembly) : Prop where
  /-- The conditional is the innermost group. -/
  frames_eq : ∃ condition, b.frames = .branches a.offset condition a.nodes :: a.frames ∧
    Node.ofBranches condition b.nodes.reverse = .ok choice
  /-- The conditional has been opened before. -/
  offset_lt : a.offset < b.offset
  /-- No construct follows. -/
  ended : r.Ended b
  /-- What follows is read as the conditional is. -/
  outcome_eq : r.outcome b = r.outcome a

variable {r : Reader} {a b c : Assembly} {ms ns : List Node} {h : Halt}

theorem advanceBy_reach {k : Nat} (hk : a.offset + k ≤ r.pattern.length) :
    (r.reach a).advanceBy k = r.reach (a.advance k) := by
  simp only [advanceBy, reach, Assembly.advance, Nat.min_eq_left hk]

theorem Adds.nodes_reverse_eq (h : r.Adds a ns b) (ha : a.nodes = []) : b.nodes.reverse = ns := by
  rw [h.nodes_eq, ha, List.append_nil, List.reverse_reverse]

theorem Adds.refl (ha : a.offset ≤ r.pattern.length) : r.Adds a [] a :=
  ⟨rfl, rfl, Nat.le_refl _, ha, rfl⟩

theorem Adds.trans (hab : r.Adds a ms b) (hbc : r.Adds b ns c) : r.Adds a (ms ++ ns) c where
  frames_eq := hbc.frames_eq.trans hab.frames_eq
  nodes_eq := by rw [hbc.nodes_eq, hab.nodes_eq, List.reverse_append, List.append_assoc]
  offset_le := Nat.le_trans hab.offset_le hbc.offset_le
  within := hbc.within
  outcome_eq := hbc.outcome_eq.trans hab.outcome_eq

theorem Adds.trans_fills (hab : r.Adds a ms b) (hbc : r.Fills b ns c) : r.Fills a (ms ++ ns) c :=
  ⟨hab.trans hbc.toAdds, hbc.ended⟩

/-! ## What follows -/

/-- The token that starts with a glyph. -/
def next (r : Reader) (g : Char) (t : Text) : Lexeme :=
  ⟨(Token.read r.options.ignoreWhitespace g t).1, (Token.read r.options.ignoreWhitespace g t).2 + 1⟩

theorem next_of_not_skipped {g : Char}
    (hblank : ¬(r.options.ignoreWhitespace && Token.isSkipped g) = true)
    (hcomment : ¬(r.options.ignoreWhitespace && g == '#') = true) (t : Text) :
    r.next g t = ⟨(Token.readGlyph g t).1, (Token.readGlyph g t).2 + 1⟩ := by
  rw [next, Token.read, if_neg hblank, if_neg hcomment]

theorem next_close (t : Text) : r.next ')' t = ⟨.close, 1⟩ :=
  next_of_not_skipped (by simp [Token.isSkipped]) (by simp) t

section

variable {g : Char} {t : Text} (ht : r.pattern.drop a.offset = g :: t)

include ht

/-- A token does not go past the end of the pattern. -/
theorem offset_add_width_le : a.offset + (r.next g t).width ≤ r.pattern.length := by
  have hle := Token.read_snd_le r.options.ignoreWhitespace g t
  have hlength := congrArg List.length ht
  rw [List.length_drop, List.length_cons] at hlength
  dsimp only [next]
  omega

/-- A token can be taken, and then the rest is read. -/
theorem outcome_of_step (hstep : Assembly.step r.options a (r.next g t) = .ok b) :
    b.offset = a.offset + (r.next g t).width ∧ r.outcome b = r.outcome a := by
  have hoffset : b.offset = a.offset + (r.next g t).width :=
    Assembly.offset_of_step (Token.shaped_read _ g t) hstep
  refine ⟨hoffset, ?_⟩
  have hdrop : r.pattern.drop b.offset =
      t.drop (Token.read r.options.ignoreWhitespace g t).2 := by
    rw [hoffset, next, ← List.drop_drop, ht, List.drop_succ_cons]
  rw [next] at hstep
  rw [outcome, outcome, ht, Lexeme.lex_cons, Assembly.run_cons_of_step hstep, hdrop]

theorem outcome_of_step_eq_error (hstep : Assembly.step r.options a (r.next g t) = .error h) :
    r.outcome a = .error h := by
  rw [outcome, ht, Lexeme.lex_cons]
  exact Assembly.run_finish_of_step_eq_error hstep _

/-- A token may add nodes. -/
theorem adds_of_step (hstep : Assembly.step r.options a (r.next g t) = .ok b)
    (hframes : b.frames = a.frames) (hnodes : b.nodes = ns.reverse ++ a.nodes) :
    a.offset < b.offset ∧ r.Adds a ns b := by
  obtain ⟨hoffset, hresult⟩ := outcome_of_step ht hstep
  have hpos : 0 < (r.next g t).width := Nat.succ_pos _
  have hle := offset_add_width_le ht
  exact ⟨by omega, hframes, hnodes, by omega, by omega, hresult⟩

end

theorem outcome_of_nil (ht : r.pattern.drop a.offset = []) : r.outcome a = a.finish := by
  rw [outcome, ht]
  rfl

/-- A closing parenthesis or the end of the pattern may not be possible. -/
theorem outcome_of_ended (hended : r.Ended a) (hclose : a.close = .error h)
    (hfinish : a.finish = .error h) : r.outcome a = .error h := by
  rcases hended with ht | ⟨t, ht⟩
  · exact (outcome_of_nil ht).trans hfinish
  · exact outcome_of_step_eq_error ht (by rw [next_close]; exact hclose)

/-- A group that is closed is one node. -/
theorem adds_leave {n : Node} (hlt : a.offset < b.offset) (hwithin : b.offset < r.pattern.length)
    (hresult : r.outcome ((b.leave a.frames (n :: a.nodes)).mark n a.offset) = r.outcome a) :
    a.offset < (b.leave a.frames (n :: a.nodes)).offset ∧
      r.Adds a [n] ((b.leave a.frames (n :: a.nodes)).mark n a.offset) := by
  have hend : a.offset < b.offset + 1 := Nat.lt_succ_of_lt hlt
  exact ⟨hend, rfl, rfl, Nat.le_of_lt hend, hwithin, hresult⟩

/-- What a read comes to is told by what follows at its start. -/
theorem read_eq (r : Reader) :
    r.read = match r.outcome { offset := r.offset } with
      | .ok b => (.ok ⟨b.tree, (r.reach b).index⟩, (r.reach b).takeIndex.2)
      | .error h => (.error h.fault, (r.reach h.reached).fail h.fault) := rfl

end Reader

namespace Descent

/-! ## Descents and assemblies -/

/-- What a descent has come to: it stands behind an assembly with a value, or has stopped at the
fault that follows. It is not refused. -/
inductive Tracks {α : Type} (r : Reader) (result : Except Halt Assembly)
    (P : α → Assembly → Prop) : EStateM.Result Stop Reader α → Prop where
  /-- It has gone on. -/
  | goes {v : α} {s : Reader} (b : Assembly) (hs : s = r.reach b) (h : P v b) :
    Tracks r result P (.ok v s)
  /-- It has stopped. -/
  | stops {h : Halt} (hresult : result = .error h) :
    Tracks r result P (fail h.fault (r.reach h.reached))

section

variable {α β : Type} {r s : Reader} {x : Descent α} {f : α → Descent β} {a b : Assembly}
  {result : Except Halt Assembly} {P : α → Assembly → Prop} {Q : β → Assembly → Prop}

theorem Tracks.bind (hx : Tracks r result P (x s))
    (hf : ∀ v b, P v b → Tracks r result Q (f v (r.reach b))) :
    Tracks r result Q ((x >>= f) s) := by
  -- what comes after is done only if the first part has gone on
  change Tracks r result Q (EStateM.bind x f s)
  unfold EStateM.bind
  generalize x s = res at hx
  cases hx with
  | goes b hs h => exact hs ▸ hf _ b h
  | stops hresult => exact .stops hresult

theorem Tracks.mono {P' : α → Assembly → Prop} {res : EStateM.Result Stop Reader α}
    (h : Tracks r result P res) (hP : ∀ v b, P v b → P' v b) : Tracks r result P' res := by
  cases h with
  | goes b hs h => exact .goes b hs (hP _ b h)
  | stops hresult => exact .stops hresult

/-- A part that only goes on comes as far as an assembly that is advanced with it. -/
theorem Passes.reach {v : α} {k : Nat} (hx : Passes x (r.pattern.drop a.offset) v k)
    (hk : a.offset + k ≤ r.pattern.length) :
    x (r.reach a) = .ok v (r.reach (a.advance k)) := by
  rw [← Reader.advanceBy_reach hk]
  exact hx _ (Nat.le_trans (Nat.le_add_right _ k) hk) rfl

/-- A part that finds the end of the pattern too early has come there. -/
theorem RunsOut.reach (hx : RunsOut x (r.pattern.drop a.offset))
    (ha : a.offset ≤ r.pattern.length) :
    x (r.reach a) = fail ⟨.endOfPattern, r.pattern.length⟩
      (r.reach (a.advance (r.pattern.length - a.offset))) := by
  rw [← Reader.advanceBy_reach (Nat.le_of_eq (Nat.add_sub_cancel' ha)), ← List.length_drop]
  exact hx _ ha rfl

theorem advance_reach (ha : a.offset < r.pattern.length) :
    advance (r.reach a) = .ok () (r.reach (a.advance 1)) := by
  refine (passes_advanceBy ?_).reach ha
  rw [List.length_drop]
  omega

theorem closeRun_reach (r : Reader) (a : Assembly) (k : Nat) :
    closeRun (r.reach (a.advance k)) = .ok () (r.reach (a.gap.advance k)) := rfl

theorem further_reach {start : Nat} (h : start < a.offset) :
    further start (r.reach a) = .ok () (r.reach a) :=
  if_pos h

theorem register_of_lt {n : Node} {start : Nat} (h : start < s.offset) :
    register n start s =
      .ok () { s with index := s.index.push (.ofNode n start (s.offset - 1)) n.isLiteral } := by
  have hle : start ≤ s.offset - 1 := by omega
  have hindex : s.index.register (.ofNode n start (s.offset - 1)) n.isLiteral =
      .ok (s.index.push (.ofNode n start (s.offset - 1)) n.isLiteral) := if_pos hle
  rw [register, if_pos h, Nat.max_eq_left hle, Reader.register, hindex]
  rfl

/-- A node that takes up some glyphs is registered as it is marked. -/
theorem register_reach {n : Node} {start : Nat} (h : start < a.offset) :
    register n start (r.reach a) = .ok () (r.reach (a.mark n start)) :=
  register_of_lt (s := r.reach a) h

/-- A construct that takes up some glyphs is registered behind what it consists of. -/
theorem tracks_spanned {y : Nat → Descent Node} {Q : Node → Assembly → Prop}
    (hy : Tracks r result (fun n b => a.offset < b.offset ∧ Q n (b.mark n a.offset))
      (y a.offset (r.reach a))) :
    Tracks r result (fun n b => a.offset < b.offset ∧ Q n b) (spanned y (r.reach a)) := by
  refine Tracks.bind (f := fun n => do register n a.offset; return n) hy ?_
  rintro n b ⟨hlt, hQ⟩
  rw [bind_of_ok (register_reach hlt)]
  exact .goes _ rfl ⟨hlt, hQ⟩

end

/-- A closing parenthesis is taken, or it is missing. The choice that a conditional makes may have
been marked in front of it. -/
theorem tracks_expectClose {r : Reader} {b c d : Assembly} {start : Nat} (hended : r.Ended b)
    (hoffset : d.offset = b.offset) (hclose : b.close = .ok c)
    (hfinish : b.finish = .error ⟨⟨.unclosedGroup, start⟩, d⟩) :
    Tracks r (r.outcome b)
      (fun _ e => e = d.advance 1 ∧ e.offset ≤ r.pattern.length ∧ r.outcome c = r.outcome b)
      (expectClose start (r.reach d)) := by
  have hpeek : peek (r.reach d) = .ok (r.pattern.drop b.offset).head? (r.reach d) := by
    rw [← hoffset]
    rfl
  rw [expectClose, bind_of_ok hpeek]
  rcases hended with ht | ⟨t, ht⟩
  · rw [ht]
    exact .stops ((Reader.outcome_of_nil ht).trans hfinish)
  · have hle := Reader.offset_add_width_le ht
    have hstep : Assembly.step r.options b (r.next ')' t) = .ok c := by
      rw [Reader.next_close]
      exact hclose
    rw [Reader.next_close, ← hoffset] at hle
    rw [ht, List.head?_cons]
    simp only [advance_reach hle]
    exact .goes _ rfl ⟨rfl, hle, (Reader.outcome_of_step ht hstep).2⟩

end Descent

end RegexGloss
