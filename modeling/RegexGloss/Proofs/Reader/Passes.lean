import Mathlib.Data.List.TakeWhile
import RegexGloss.Proofs.Reader.Descent
import RegexGloss.Proofs.Token.Locality

/-!
# What the parts of a descent read

As long as a descent only goes on, nothing but its place changes. Such a part is described by the
glyphs in front of it: `Descent.Passes` says what it yields and by how many of them it goes on, and
`Descent.RunsOut` that the pattern ends too early for it. Either way it is not refused.

Classes, quantifiers, escapes and openers are read with the same glyphs as the tokens they are part
of.
-/

namespace RegexGloss

theorem Reader.advanceBy_advanceBy (r : Reader) (j k : Nat) :
    (r.advanceBy j).advanceBy k = r.advanceBy (j + k) := by
  have hoffset : min (min (r.offset + j) r.pattern.length + k) r.pattern.length =
      min (r.offset + (j + k)) r.pattern.length := by omega
  simp only [advanceBy, hoffset]

theorem Reader.advanceBy_zero {r : Reader} (hr : r.offset ≤ r.pattern.length) :
    r.advanceBy 0 = r := by
  simp [advanceBy, Nat.min_eq_left hr]

namespace Descent

/-! ## Parts that only go on -/

section

variable {α β : Type} {x : Descent α} {f : α → Descent β} {r s : Reader}

theorem bind_of_ok {v : α} (h : x r = .ok v s) : (x >>= f) r = f v s := by
  simp only [bind, EStateM.bind, h]

theorem bind_of_error {stop : Stop} (h : x r = .error stop s) :
    (x >>= f) r = .error stop s := by
  simp only [bind, EStateM.bind, h]

end

/-- With these glyphs in front, a part yields a value and goes on by so many of them. -/
def Passes {α : Type} (x : Descent α) (t : Text) (v : α) (width : Nat) : Prop :=
  ∀ r : Reader, r.offset ≤ r.pattern.length → r.remaining = t → x r = .ok v (r.advanceBy width)

/-- With these glyphs in front, a part finds that the pattern ends too early. -/
def RunsOut {α : Type} (x : Descent α) (t : Text) : Prop :=
  ∀ r : Reader, r.offset ≤ r.pattern.length → r.remaining = t →
    x r = fail ⟨.endOfPattern, r.pattern.length⟩ (r.advanceBy t.length)

section

variable {α β : Type} {x : Descent α} {f : α → Descent β} {t : Text} {v : α} {w : β} {j k : Nat}

theorem passes_pure (t : Text) (v : α) : Passes (pure v) t v 0 := by
  intro r hr ht
  rw [Reader.advanceBy_zero hr]
  rfl

/-- What a part does and what is done after it are put together. -/
theorem Passes.bind (hx : Passes x t v j) (hf : Passes (f v) (t.drop j) w k) :
    Passes (x >>= f) t w (j + k) := by
  intro r hr ht
  have hremaining : (r.advanceBy j).remaining = t.drop j := by rw [Reader.remaining_advanceBy, ht]
  rw [bind_of_ok (hx r hr ht), hf _ (r.offset_advanceBy_le j) hremaining,
    Reader.advanceBy_advanceBy]

/-- A part that only looks at the pattern does not take anything from what is done after it. -/
theorem Passes.bind_zero (hx : Passes x t v 0) (hf : Passes (f v) t w k) :
    Passes (x >>= f) t w k := by
  simpa using hx.bind (f := f) (k := k) (by simpa using hf)

theorem Passes.map (hx : Passes x t v j) (g : α → β) :
    Passes (x >>= fun v => pure (g v)) t (g v) j :=
  hx.bind (f := fun v => pure (g v)) (passes_pure _ (g v))

theorem RunsOut.bind (hx : RunsOut x t) : RunsOut (x >>= f) t :=
  fun r hr ht => bind_of_error (hx r hr ht)

theorem Passes.bind_runsOut (hx : Passes x t v j) (hj : j ≤ t.length)
    (hf : RunsOut (f v) (t.drop j)) : RunsOut (x >>= f) t := by
  intro r hr ht
  have hremaining : (r.advanceBy j).remaining = t.drop j := by rw [Reader.remaining_advanceBy, ht]
  rw [bind_of_ok (hx r hr ht), hf _ (r.offset_advanceBy_le j) hremaining, List.length_drop,
    Reader.advanceBy_advanceBy, Nat.add_sub_cancel' hj]
  rfl

theorem Passes.bind_zero_runsOut (hx : Passes x t v 0) (hf : RunsOut (f v) t) :
    RunsOut (x >>= f) t :=
  hx.bind_runsOut (Nat.zero_le _) (by simpa using hf)

end

/-! ### Single steps -/

section

variable (c : Char) (t : Text)

theorem passes_peek : Passes peek t t.head? 0 := by
  intro r hr ht
  rw [Reader.advanceBy_zero hr, ← ht]
  rfl

theorem passes_remaining : Passes remaining t t 0 := by
  intro r hr ht
  rw [Reader.advanceBy_zero hr, ← ht]
  rfl

theorem passes_current : Passes current (c :: t) c 0 := by
  intro r hr ht
  have hcurrent : r.current = .ok c := by
    rw [Reader.current, Reader.peek, ht]
    rfl
  rw [Reader.advanceBy_zero hr, current, hcurrent]

theorem runsOut_current : RunsOut current [] := by
  intro r hr ht
  have hoffset : r.offset = r.pattern.length := Nat.le_antisymm hr (List.drop_eq_nil_iff.1 ht)
  have hcurrent : r.current = .error ⟨.endOfPattern, r.pattern.length⟩ := by
    rw [Reader.current, Reader.peek, ht, hoffset]
    rfl
  rw [current, hcurrent, List.length_nil, Reader.advanceBy_zero hr]

theorem passes_advanceBy {t : Text} {k : Nat} (h : k ≤ t.length) :
    Passes (advanceBy k) t () k := by
  intro r hr ht
  have hlength : r.remaining.length = r.pattern.length - r.offset := List.length_drop
  rw [ht] at hlength
  rw [advanceBy, if_pos (by omega)]

/-- Going on by one glyph makes a part one glyph wider. -/
theorem Passes.advance_bind {α : Type} {t : Text} {f : Unit → Descent α} {v : α} {k : Nat}
    (hf : Passes (f ()) t v k) (c : Char) : Passes (advance >>= f) (c :: t) v (k + 1) := by
  rw [Nat.add_comm]
  exact (passes_advanceBy (Nat.le_add_left 1 t.length)).bind hf

theorem RunsOut.advance_bind {α : Type} {t : Text} {f : Unit → Descent α}
    (hf : RunsOut (f ()) t) (c : Char) : RunsOut (advance >>= f) (c :: t) :=
  (passes_advanceBy (Nat.le_add_left 1 t.length)).bind_runsOut (Nat.le_add_left 1 t.length) hf

end

/-! ### Glyphs -/

theorem passes_accept_self (c : Char) (t : Text) : Passes (accept c) (c :: t) true 1 := by
  refine (passes_peek _).bind_zero ?_
  rw [if_pos List.head?_cons]
  exact Passes.advance_bind (f := fun _ => pure true) (passes_pure t true) c

theorem passes_accept_of_ne {c : Char} {t : Text} (h : t.head? ≠ some c) :
    Passes (accept c) t false 0 := by
  refine (passes_peek t).bind_zero ?_
  rw [if_neg h]
  exact passes_pure t false

theorem passes_accept (c : Char) (t : Text) :
    Passes (accept c) t (t.head? == some c) (t.head? == some c).toNat := by
  by_cases h : t.head? = some c
  · obtain ⟨u, rfl⟩ := List.head?_eq_some_iff.1 h
    rw [beq_iff_eq.2 h]
    exact passes_accept_self c u
  · rw [beq_eq_false_iff_ne.2 h]
    exact passes_accept_of_ne h

theorem passes_takeWhile (p : Char → Bool) {t : Text} {fuel : Nat} (h : t.length < fuel) :
    Passes (takeWhile p fuel) t (t.takeWhile p) (t.takeWhile p).length := by
  induction fuel generalizing t with
  | zero => exact absurd h (Nat.not_lt_zero _)
  | succ fuel ih =>
    refine (passes_peek t).bind_zero ?_
    cases t with
    | nil => exact passes_pure [] []
    | cons c t =>
      by_cases hc : p c = true
      · rw [List.takeWhile_cons_of_pos hc]
        simp only [List.head?_cons, if_pos hc]
        exact ((ih (Nat.lt_of_succ_lt_succ h)).map (c :: ·)).advance_bind c
      · rw [List.takeWhile_cons_of_neg hc]
        simp only [List.head?_cons, if_neg hc]
        exact passes_pure _ []

theorem passes_takeAllWhile (p : Char → Bool) (t : Text) :
    Passes (takeAllWhile p) t (t.takeWhile p) (t.takeWhile p).length :=
  (passes_remaining t).bind_zero (passes_takeWhile p (Nat.lt_succ_self _))

theorem passes_take {count : Nat} {t : Text} (h : count ≤ t.length) :
    Passes (take count) t (t.take count) count := by
  induction count generalizing t with
  | zero => exact passes_pure t []
  | succ count ih =>
    obtain ⟨c, u, rfl⟩ := List.exists_cons_of_length_pos (Nat.zero_lt_of_lt h)
    refine (passes_current c u).bind_zero ?_
    exact ((ih (Nat.le_of_succ_le_succ h)).map (c :: ·)).advance_bind c

theorem runsOut_take {count : Nat} {t : Text} (h : t.length < count) : RunsOut (take count) t := by
  induction count generalizing t with
  | zero => exact absurd h (Nat.not_lt_zero _)
  | succ count ih =>
    cases t with
    | nil => exact runsOut_current.bind
    | cons c u =>
      refine (passes_current c u).bind_zero_runsOut ?_
      exact (ih (Nat.lt_of_succ_lt_succ h)).bind.advance_bind c

/-! ### Atoms -/

theorem passes_members (negated : Bool) (t : Text) :
    Passes (members negated) t (CharClass.readMembers negated t).1
      (CharClass.readMembers negated t).2 :=
  (passes_remaining t).bind_zero
    ((passes_advanceBy (CharClass.readMembers_snd_le negated t)).map _)

/-- A class is read with all its glyphs. -/
theorem passes_charClass (t : Text) :
    Passes charClass t (CharClass.read t).1 (CharClass.read t).2 := by
  by_cases h : t.head? = some '^'
  · obtain ⟨u, rfl⟩ := List.head?_eq_some_iff.1 h
    rw [CharClass.read, Nat.add_comm]
    exact (passes_accept_self '^' u).bind (passes_members true u)
  · rw [CharClass.read_of_head?_ne h]
    exact (passes_accept_of_ne h).bind_zero (passes_members false t)

theorem passes_counts (t : Text) :
    Passes counts t (Quantifier.Counts.read t) (Quantifier.Counts.read t).width := by
  have hleast := passes_takeAllWhile Char.isDigit t
  have hrest : t.drop (t.takeWhile Char.isDigit).length = t.dropWhile Char.isDigit :=
    (congrArg _ List.takeWhile_append_dropWhile.symm).trans List.drop_left
  by_cases h : (t.dropWhile Char.isDigit).head? = some ','
  · obtain ⟨u, hu⟩ := List.head?_eq_some_iff.1 h
    rw [Quantifier.Counts.read_of_comma hu, Quantifier.Counts.width, Nat.add_assoc]
    refine hleast.bind ?_
    rw [hrest, hu]
    exact (passes_accept_self ',' u).bind ((passes_takeAllWhile Char.isDigit u).map _)
  · -- no digit follows the first digits, so there are no others
    have hmost := passes_takeAllWhile Char.isDigit (t.dropWhile Char.isDigit)
    rw [List.takeWhile_eq_nil_iff.2 (List.dropWhile_get_zero_not _ _)] at hmost
    rw [Quantifier.Counts.read_of_head?_ne h, Quantifier.Counts.width]
    refine hleast.bind ?_
    rw [hrest]
    exact (passes_accept_of_ne h).bind_zero (hmost.map _)

theorem passes_quantifier (t : Text) :
    Passes quantifier t (Quantifier.read t).1 (Quantifier.read t).2 := by
  have hcounts := passes_counts t
  have hstray := Quantifier.strayWidth_le (t.drop (Quantifier.Counts.read t).width)
  have hpeek := passes_peek (t.drop (Quantifier.Counts.read t).width)
  dsimp only [Quantifier.read]
  split
  · rename_i h
    obtain ⟨u, hu⟩ := List.head?_eq_some_iff.1 h.2
    rw [Nat.add_assoc]
    refine hcounts.bind (hpeek.bind_zero ?_)
    rw [if_pos h, hu]
    refine (passes_advanceBy (Nat.le_add_left 1 u.length)).bind ?_
    exact (passes_accept '?' u).map _
  · rename_i h
    refine hcounts.bind (hpeek.bind_zero ?_)
    rw [if_neg h]
    exact (passes_remaining _).bind_zero ((passes_advanceBy hstray).map _)

/-- The glyphs of an escape from the second one on. -/
theorem passes_escapeAfter {c : Char} {t : Text} {e : Escape} {width : Nat}
    (h : Escape.readGlyph? c t = some (e, width + 1)) : Passes (escapeAfter c) t e width := by
  have htake {count : Nat} {g : Text → Escape}
      (h : (Escape.take? count t).map (fun digits => (g digits, count + 1)) = some (e, width + 1)) :
      Passes (do return g (← take count)) t e width := by
    obtain ⟨digits, hd, he⟩ := Option.map_eq_some_iff.1 h
    have hle := Escape.length_le_of_take?_eq_some hd
    cases he
    rw [Escape.take?, if_pos (List.length_take_of_le hle)] at hd
    cases hd
    exact (passes_take hle).map g
  unfold escapeAfter
  split
  · cases t with
    | nil => cases h
    | cons c t =>
      cases h
      refine (passes_current c t).bind_zero (Passes.advance_bind ?_ c)
      exact passes_pure t _
  · exact htake h
  · exact htake h
  · cases h
    exact passes_pure t _
  · -- a glyph that takes no others
    unfold Escape.readGlyph? at h
    split at h
    iterate 5 contradiction
    cases h
    exact passes_pure t _

theorem runsOut_escapeAfter {c : Char} {t : Text} (h : Escape.readGlyph? c t = none) :
    RunsOut (escapeAfter c) t := by
  have htake {count : Nat} {g : Text → Escape × Nat} (h : (Escape.take? count t).map g = none) :
      RunsOut (take count) t := by
    refine runsOut_take (Nat.lt_of_not_le fun hle => ?_)
    rw [Escape.take?, if_pos (List.length_take_of_le hle)] at h
    cases h
  unfold escapeAfter
  split
  · cases t with
    | nil => exact runsOut_current.bind
    | cons c t => cases h
  · exact (htake h).bind
  · exact (htake h).bind
  · cases h
  · unfold Escape.readGlyph? at h
    split at h
    iterate 5 contradiction
    cases h

/-- An escape is read with all its glyphs. -/
theorem passes_escape {t : Text} {e : Escape} {width : Nat}
    (h : Escape.read? t = some (e, width)) : Passes escape t e width := by
  have hle := Escape.snd_le_of_read?_eq_some h
  refine (passes_remaining t).bind_zero ?_
  unfold Escape.read? at h
  cases hname : Escape.backreference? t with
  | some read =>
    rw [hname] at h
    cases h
    exact (passes_advanceBy hle).map _
  | none =>
    rw [hname] at h
    cases t with
    | nil => cases h
    | cons c u =>
      obtain ⟨width, rfl⟩ := Nat.exists_eq_add_of_lt (Escape.pos_of_readGlyph?_eq_some h)
      rw [Nat.zero_add] at h ⊢
      exact (passes_current c u).bind_zero ((passes_escapeAfter h).advance_bind c)

/-- Where there is no escape, the pattern ends too early. -/
theorem runsOut_escape {t : Text} (h : Escape.read? t = none) : RunsOut escape t := by
  refine (passes_remaining t).bind_zero_runsOut ?_
  unfold Escape.read? at h
  cases hname : Escape.backreference? t with
  | some read =>
    rw [hname] at h
    cases h
  | none =>
    rw [hname] at h
    cases t with
    | nil => exact runsOut_current.bind
    | cons c u =>
      exact (passes_current c u).bind_zero_runsOut ((runsOut_escapeAfter h).advance_bind c)

theorem passes_character {c : Char} {t : Text} {a : Atom} {width : Nat}
    (h : Token.readGlyph c t = (.atom a, width)) : Passes (character c) t a width := by
  have hle := Token.readGlyph_snd_le c t
  rw [h] at hle
  refine (passes_remaining t).bind_zero ?_
  simp only [h]
  exact (passes_advanceBy hle).map _

/-! ### Openers -/

/-- An opener is read with all its glyphs. -/
theorem passes_opener {t : Text} {o : Opener} (h : Opener.read? ('?' :: t) = some o)
    (start : Nat) : Passes (opener start) ('?' :: t) (o.kind, o.hasBody) o.width := by
  refine (passes_peek _).bind_zero ?_
  rw [if_pos List.head?_cons]
  refine (passes_remaining _).bind_zero ?_
  simp only [h]
  exact (passes_advanceBy (Opener.width_le_of_read?_eq_some h)).map _

theorem opener_of_read?_eq_none {r : Reader} {t : Text} (ht : r.remaining = '?' :: t)
    (h : Opener.read? ('?' :: t) = none) (start : Nat) :
    opener start r = fail ⟨.unknownGroup, start⟩ r := by
  have hpeek : peek r = .ok (some '?') r := by
    rw [peek, Reader.peek, ht]
    rfl
  have hremaining : remaining r = .ok ('?' :: t) r := by rw [remaining, ht]
  rw [opener, bind_of_ok hpeek, if_pos rfl, bind_of_ok hremaining]
  simp only [h]

theorem opener_of_peek_ne {r : Reader} (h : r.peek ≠ some '?') (start : Nat) :
    opener start r = .ok (Assembly.plainKind r.options, true) r := by
  rw [opener, bind_of_ok (show peek r = .ok r.peek r from rfl), if_neg h]
  rfl

end Descent

end RegexGloss
