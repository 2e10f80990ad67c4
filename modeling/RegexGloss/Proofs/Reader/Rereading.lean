import RegexGloss.Proofs.Construct.Faults
import RegexGloss.Proofs.Token.Glyphs

/-!
# Reading on after a fault

After a fault a reader stands where reading stopped, and can read on from there. Each read that
fails gets it further, unless a parenthesis that closes nothing is in the way; such a parenthesis is
never passed. So after as many reads as the pattern has glyphs, every read gives the same result:
there is nothing left to explain, or the parenthesis is in the way. Main statement:
`settles_reader`.
-/

namespace RegexGloss

/-- Tokens take up some glyphs if there are any tokens. -/
theorem Lexeme.sum_width_pos {ls : List Lexeme} (hls : ∀ l ∈ ls, l.Shaped) (hne : ls ≠ []) :
    0 < (ls.map width).sum := by
  obtain ⟨l, rest, rfl⟩ := List.exists_cons_of_ne_nil hne
  have hpos := (hls l List.mem_cons_self).1
  rw [List.map_cons, List.sum_cons]
  omega

namespace Assembly

variable {o : Options} {a b : Assembly} {l : Lexeme} {ls : List Lexeme} {h : Halt}

/-! ## How far tokens get -/

theorem offset_of_close (hclose : a.close = .ok b) : b.offset = a.offset + 1 := by
  unfold close at hclose
  split at hclose
  · cases hclose
  · cases hclose
    rfl
  · cases hclose
    rfl
  · split at hclose
    · cases hclose
    · cases hclose
      rfl

/-- A token that can be taken gets an assembly on by the glyphs of the token. -/
theorem offset_of_step (hl : l.Shaped) (hstep : step o a l = .ok b) :
    b.offset = a.offset + l.width := by
  obtain ⟨token, width⟩ := l
  cases token with
  | close =>
    obtain rfl : width = 1 := hl.2
    exact offset_of_close hstep
  | truncatedEscape | unknownGroup => cases hstep
  | _ =>
    cases hstep
    rfl

/-- Tokens that can be taken get an assembly on by the glyphs of all of them. -/
theorem offset_of_run (hls : ∀ l ∈ ls, l.Shaped) (hrun : run o a ls = .ok b) :
    b.offset = a.offset + (ls.map Lexeme.width).sum := by
  induction ls generalizing a with
  | nil =>
    cases hrun
    rfl
  | cons l ls ih =>
    obtain ⟨c, hc, hb⟩ := (run_append_eq_ok_iff o a b [l] ls).1 hrun
    rw [run_singleton] at hc
    rw [ih (fun k hk => hls k (List.mem_cons_of_mem l hk)) hb,
      offset_of_step (hls l List.mem_cons_self) hc, List.map_cons, List.sum_cons, Nat.add_assoc]

/-! ## Where reading stops -/

/-- A closing parenthesis that cannot be taken leaves an assembly as it is. Outside of all groups
it closes nothing, and otherwise there is a surplus bar. -/
theorem fault_of_close (hclose : a.close = .error h) :
    h.reached = a ∧ (h.fault = ⟨.surplusClose, a.offset⟩ ∨
      h.fault.cause = .surplusBar ∧ a.frames ≠ []) := by
  unfold close at hclose
  split at hclose
  · cases hclose
    exact ⟨rfl, .inl rfl⟩
  · cases hclose
  · cases hclose
  · rename_i hframes
    split at hclose
    · cases hclose
      exact ⟨rfl, .inr ⟨rfl, by rw [hframes]; exact List.cons_ne_nil _ _⟩⟩
    · cases hclose

/-- Where a pattern cannot end, a group is open. -/
theorem fault_of_finish (hfinish : a.finish = .error h) :
    h.reached.offset = a.offset ∧ h.fault.cause ≠ .surplusClose ∧ a.frames ≠ [] := by
  have hopen {frame : Frame} {frames : List Frame} (hframes : a.frames = frame :: frames) :
      a.frames ≠ [] := by
    rw [hframes]
    exact List.cons_ne_nil _ _
  unfold finish at hfinish
  split at hfinish
  · cases hfinish
  · cases hfinish
    exact ⟨rfl, nofun, hopen ‹_›⟩
  · cases hfinish
    exact ⟨rfl, nofun, hopen ‹_›⟩
  · split at hfinish
    · cases hfinish
      exact ⟨rfl, nofun, hopen ‹_›⟩
    · cases hfinish
      exact ⟨rfl, nofun, hopen ‹_›⟩

/-- Where tokens from `start` on stop reading: in front of a parenthesis that closes nothing, or
behind one token at least. -/
def StopsBehind (start : Nat) (h : Halt) (before after : List Lexeme) : Prop :=
  h.reached.offset = start + (before.map Lexeme.width).sum ∧
    (h.fault = ⟨.surplusClose, h.reached.offset⟩ ∧ (∃ l ∈ after.head?, l.token = .close) ∨
      h.fault.cause ≠ .surplusClose ∧ before ≠ [])

/-- A token that cannot be taken stops reading in front of it or behind it. -/
theorem exists_stopsBehind_of_step {start : Nat} {before after : List Lexeme}
    (ha : a.offset = start + (before.map Lexeme.width).sum) (hframes : before = [] → a.frames = [])
    (hstep : step o a l = .error h) :
    ∃ first rest, before ++ l :: after = first ++ rest ∧ StopsBehind start h first rest := by
  obtain ⟨token, width⟩ := l
  have hbehind := List.append_cons before ⟨token, width⟩ after
  have hne : before ++ [⟨token, width⟩] ≠ [] :=
    List.append_ne_nil_of_right_ne_nil _ (List.cons_ne_nil _ _)
  cases token with
  | close =>
    obtain ⟨hreached, hfault | ⟨hcause, hopen⟩⟩ := fault_of_close hstep
    · exact ⟨before, _, rfl, hreached ▸ ha, .inl ⟨hreached ▸ hfault, _, rfl, rfl⟩⟩
    · refine ⟨before, _, rfl, hreached ▸ ha, .inr ⟨?_, fun hnil => hopen (hframes hnil)⟩⟩
      rw [hcause]
      decide
  | truncatedEscape =>
    cases hstep
    have hcause : Cause.endOfPattern ≠ .surplusClose := by decide
    refine ⟨_, after, hbehind, ?_, .inr ⟨hcause, hne⟩⟩
    simp [advance, ha, Nat.add_assoc]
  | unknownGroup =>
    cases hstep
    have hcause : Cause.unknownGroup ≠ .surplusClose := by decide
    refine ⟨_, after, hbehind, ?_, .inr ⟨hcause, hne⟩⟩
    simp [advance, gap, ha, Nat.add_assoc]
  | _ => cases hstep

/-- Tokens that cannot be assembled stop reading somewhere among them. -/
theorem exists_stopsBehind {start : Nat} (hls : ∀ l ∈ ls, l.Shaped)
    (hassemble : assemble o start ls = .error h) :
    ∃ before after, ls = before ++ after ∧ StopsBehind start h before after := by
  have hframes {before : List Lexeme} {b : Assembly}
      (hrun : run o { offset := start } before = .ok b) : before = [] → b.frames = [] := by
    rintro rfl
    cases hrun
    rfl
  rw [assemble] at hassemble
  cases hrun : run o { offset := start } ls with
  | error halt =>
    rw [hrun] at hassemble
    cases hassemble
    obtain ⟨before, l, after, b, rfl, hbefore, hstep⟩ := exists_step_of_run_eq_error hrun
    have hb := offset_of_run (fun k hk => hls k (List.mem_append_left _ hk)) hbefore
    exact exists_stopsBehind_of_step hb (hframes hbefore) hstep
  | ok b =>
    rw [hrun] at hassemble
    obtain ⟨hoffset, hcause, hopen⟩ := fault_of_finish hassemble
    exact ⟨ls, [], (List.append_nil ls).symm, hoffset.trans (offset_of_run hls hrun),
      .inr ⟨hcause, fun hnil => hopen (hframes hrun hnil)⟩⟩

end Assembly

namespace Reader

variable {r : Reader}

/-! ## One read -/

/-- The place that the fault of a read points at, if there is one. -/
def location? : Except Fault Explanation → Option Location
  | .ok _ => none
  | .error f => some f.location

/-- What reading the rest of a pattern can lead to. -/
inductive Reads (r : Reader) : Except Fault Explanation × Reader → Prop where
  /-- All glyphs are explained. -/
  | done (e : Explanation) :
    Reads r (.ok e, { r with offset := r.pattern.length, index := .empty })
  /-- A parenthesis that closes nothing is in the way. -/
  | blocked (offset : Nat) (index : SpanIndex) (hle : r.offset ≤ offset)
    (hglyph : r.pattern[offset]? = some ')') :
    Reads r (.error ⟨.surplusClose, offset⟩,
      { r with offset, index }.fail ⟨.surplusClose, offset⟩)
  /-- Any other fault stops reading further on. -/
  | stopped (f : Fault) (offset : Nat) (index : SpanIndex) (hcause : f.cause ≠ .surplusClose)
    (hlt : r.offset < offset) (hle : offset ≤ r.pattern.length) :
    Reads r (.error f, { r with offset, index }.fail f)

/-- A reader that stands within its pattern reads in one of these ways. -/
theorem reads_read (hr : r.offset ≤ r.pattern.length) : r.Reads r.read := by
  have hshaped (l : Lexeme) (hl : l ∈ Lexeme.lex r.options.ignoreWhitespace r.remaining) :
      l.Shaped := Lexeme.shaped_of_mem_lex hl
  have hsum := Lexeme.sum_width_lex r.options.ignoreWhitespace r.remaining
  have hlength : r.remaining.length = r.pattern.length - r.offset := List.length_drop
  rw [read]
  cases hassemble : Assembly.assemble r.options r.offset
      (Lexeme.lex r.options.ignoreWhitespace r.remaining) with
  | ok a =>
    have hrun := ((Assembly.assemble_eq_ok_iff_run _ _ _ _).1 hassemble).1
    have hoffset : a.offset = r.pattern.length := by
      rw [Assembly.offset_of_run hshaped hrun, hsum, hlength]
      exact Nat.add_sub_cancel' hr
    simp only [hoffset]
    exact .done _
  | error h =>
    obtain ⟨before, after, hlex, hoffset, hstops⟩ :=
      Assembly.exists_stopsBehind hshaped hassemble
    rw [hlex] at hshaped hsum
    rw [List.map_append, List.sum_append, hlength] at hsum
    rcases hstops with ⟨hfault, l, hl, hclose⟩ | ⟨hcause, hbefore⟩
    · obtain ⟨rest, rfl⟩ := List.head?_eq_some_iff.1 hl
      have hglyph := Lexeme.getElem?_of_firstGlyph? hlex (g := ')') (by rw [hclose]; rfl)
      rw [remaining, List.getElem?_drop, ← hoffset] at hglyph
      simp only [hfault]
      exact .blocked _ _ (by omega) hglyph
    · have hpos := Lexeme.sum_width_pos (fun k hk => hshaped k (List.mem_append_left _ hk)) hbefore
      exact .stopped _ _ _ hcause (by omega) (by omega)

namespace Reads

variable {x : Except Fault Explanation × Reader}

theorem pattern_eq (h : r.Reads x) : x.2.pattern = r.pattern := by
  cases h <;> rfl

/-- A read gets further or stays, and never leaves the pattern. -/
theorem offset_le (h : r.Reads x) (hr : r.offset ≤ r.pattern.length) :
    r.offset ≤ x.2.offset ∧ x.2.offset ≤ r.pattern.length := by
  cases h with
  | done e => exact ⟨hr, Nat.le_refl _⟩
  | blocked offset index hle hglyph =>
    exact ⟨hle, Nat.le_of_lt (List.getElem?_eq_some_iff.1 hglyph).1⟩
  | stopped f offset index hcause hlt hle => exact ⟨Nat.le_of_lt hlt, hle⟩

/-- A read keeps the place that a reader has kept before, or else that of its own fault. -/
theorem firstFault_eq (h : r.Reads x) : x.2.firstFault = (r.firstFault <|> location? x.1) := by
  cases h with
  | done e => cases r.firstFault <;> rfl
  | blocked | stopped => rfl

end Reads

/-- At the end of a pattern, with nothing in the index, there is nothing to read. -/
theorem read_of_done (hoffset : r.offset = r.pattern.length) (hindex : r.index = .empty) :
    r.read = (.ok ⟨[], .empty⟩, r) := by
  have hremaining : r.remaining = [] := by rw [remaining, hoffset, List.drop_length]
  obtain ⟨pattern, options, offset, firstFault, index⟩ := r
  obtain rfl : index = .empty := hindex
  rw [read, hremaining]
  rfl

/-- A closing parenthesis in front of a reader is never passed. -/
theorem read_of_blocked (hglyph : r.pattern[r.offset]? = some ')') :
    r.read = (.error ⟨.surplusClose, r.offset⟩, r.fail ⟨.surplusClose, r.offset⟩) := by
  obtain ⟨t, hremaining⟩ : ∃ t, r.remaining = ')' :: t := by
    rw [← List.head?_drop] at hglyph
    exact List.head?_eq_some_iff.1 hglyph
  rw [read, hremaining, Construct.lex_closing]
  rfl

/-! ## Any number of reads -/

/-- The reader after so many reads. -/
def after (r : Reader) : Nat → Reader
  | 0 => r
  | n + 1 => (r.after n).read.2

theorem after_add (m n : Nat) : r.after (m + n) = (r.after m).after n := by
  induction n with
  | zero => rfl
  | succ n ih => rw [← Nat.add_assoc, after, after, ih]

/-- Reading several times gives the results of the reads one by one. -/
theorem readTimes_eq_map (r : Reader) (times : Nat) :
    r.readTimes times = (List.range times).map fun i => (r.after i).read := by
  induction times generalizing r with
  | zero => rfl
  | succ times ih =>
    have hafter (i : Nat) : r.read.2.after i = r.after (i + 1) := by
      rw [Nat.add_comm, after_add]
      rfl
    rw [readTimes, ih, List.range_succ_eq_map, List.map_cons, List.map_map]
    simp only [Function.comp_def, hafter]
    rfl

/-- At the end of a pattern a reader stays as it is. -/
theorem after_of_done (hoffset : r.offset = r.pattern.length) (hindex : r.index = .empty)
    (n : Nat) : r.after n = r := by
  induction n with
  | zero => rfl
  | succ n ih => rw [after, ih, read_of_done hoffset hindex]

/-- In front of a closing parenthesis a reader stays where it is. -/
theorem blocked_after {pos : Nat} (hoffset : r.offset = pos) (hglyph : r.pattern[pos]? = some ')')
    (n : Nat) : (r.after n).offset = pos ∧ (r.after n).pattern[pos]? = some ')' := by
  induction n with
  | zero => exact ⟨hoffset, hglyph⟩
  | succ n ih =>
    obtain ⟨rfl, hglyph⟩ := ih
    rw [after, read_of_blocked hglyph]
    exact ⟨rfl, hglyph⟩

/-- A result that every later read repeats, apart from what was explained. -/
def Final (result : Except Fault Explanation) : Prop :=
  (∃ e, result = .ok e) ∨ ∃ pos, result = .error ⟨.surplusClose, pos⟩

theorem Reads.final_or_lt {x : Except Fault Explanation × Reader} (h : r.Reads x) :
    Final x.1 ∨ r.offset < x.2.offset ∧ x.2.offset ≤ r.pattern.length := by
  cases h with
  | done e => exact .inl (.inl ⟨e, rfl⟩)
  | blocked offset => exact .inl (.inr ⟨offset, rfl⟩)
  | stopped f offset index hcause hlt hle => exact .inr ⟨hlt, hle⟩

section

variable (hr : r.offset ≤ r.pattern.length)

include hr

/-- A reader stays within the same pattern. -/
theorem after_within (n : Nat) :
    (r.after n).pattern = r.pattern ∧ (r.after n).offset ≤ r.pattern.length := by
  induction n with
  | zero => exact ⟨rfl, hr⟩
  | succ n ih =>
    obtain ⟨hpattern, hoffset⟩ := ih
    rw [← hpattern] at hoffset ⊢
    exact ⟨(reads_read hoffset).pattern_eq, ((reads_read hoffset).offset_le hoffset).2⟩

theorem reads_after (n : Nat) : (r.after n).Reads (r.after n).read := by
  obtain ⟨hpattern, hoffset⟩ := after_within hr n
  exact reads_read (hpattern ▸ hoffset)

/-- No read goes back. -/
theorem offset_after_le {i j : Nat} (hij : i ≤ j) : (r.after i).offset ≤ (r.after j).offset := by
  obtain ⟨d, rfl⟩ := Nat.exists_eq_add_of_le hij
  induction d with
  | zero => exact Nat.le_refl _
  | succ d ih =>
    obtain ⟨hpattern, hoffset⟩ := after_within hr (i + d)
    exact Nat.le_trans (ih (Nat.le_add_right i d))
      ((reads_after hr (i + d)).offset_le (hpattern ▸ hoffset)).1

/-- After a read that succeeds, there is nothing to read. -/
theorem read_after_of_ok {i j : Nat} {e : Explanation} (hij : i < j)
    (hi : (r.after i).read.1 = .ok e) : (r.after j).read.1 = .ok ⟨[], .empty⟩ := by
  obtain ⟨d, rfl⟩ := Nat.exists_eq_add_of_le hij
  obtain ⟨hoffset, hindex⟩ : (r.after (i + 1)).offset = (r.after (i + 1)).pattern.length ∧
      (r.after (i + 1)).index = .empty := by
    have hreads := reads_after hr i
    rw [after]
    generalize (r.after i).read = x at hi hreads
    cases hreads with
    | done e => exact ⟨rfl, rfl⟩
    | blocked | stopped => cases hi
  rw [after_add, after_of_done hoffset hindex, read_of_done hoffset hindex]

/-- A parenthesis that closes nothing is found again by every later read. -/
theorem read_after_of_surplusClose {i j pos : Nat} (hij : i < j)
    (hi : (r.after i).read.1 = .error ⟨.surplusClose, pos⟩) :
    (r.after j).read.1 = .error ⟨.surplusClose, pos⟩ := by
  obtain ⟨d, rfl⟩ := Nat.exists_eq_add_of_le hij
  have hblocked : (r.after (i + 1)).offset = pos ∧
      (r.after (i + 1)).pattern[pos]? = some ')' := by
    have hreads := reads_after hr i
    rw [after]
    generalize (r.after i).read = x at hi hreads
    cases hreads with
    | done e => cases hi
    | blocked offset index hle hglyph =>
      cases hi
      exact ⟨rfl, hglyph⟩
    | stopped f offset index hcause =>
      cases hi
      exact absurd rfl hcause
  obtain ⟨rfl, hglyph⟩ := blocked_after hblocked.1 hblocked.2 d
  rw [after_add, read_of_blocked hglyph]

/-- A read whose result is not final gets further. -/
theorem offset_after_lt {i : Nat} {f : Fault} (hi : (r.after i).read.1 = .error f)
    (hcause : f.cause ≠ .surplusClose) : (r.after i).offset < (r.after (i + 1)).offset := by
  rcases (reads_after hr i).final_or_lt with (⟨e, he⟩ | ⟨pos, hpos⟩) | ⟨hlt, -⟩
  · rw [hi] at he
    cases he
  · rw [hi] at hpos
    cases hpos
    exact absurd rfl hcause
  · exact hlt

/-- Every read before a final result takes up a glyph. -/
theorem le_offset_after_or (n : Nat) :
    n ≤ (r.after n).offset ∨ ∃ i < n, Final (r.after i).read.1 := by
  induction n with
  | zero => exact .inl (Nat.zero_le _)
  | succ n ih =>
    rcases ih with hle | ⟨i, hi, hfinal⟩
    · rcases (reads_after hr n).final_or_lt with hfinal | ⟨hlt, -⟩
      · exact .inr ⟨n, Nat.lt_succ_self n, hfinal⟩
      · exact .inl (Nat.lt_of_le_of_lt hle hlt)
    · exact .inr ⟨i, Nat.lt_succ_of_lt hi, hfinal⟩

/-- There are no more reads without a final result than glyphs. -/
theorem final_of_length_le {n : Nat} (hn : r.pattern.length ≤ n) : Final (r.after n).read.1 := by
  rcases le_offset_after_or hr n with hle | ⟨i, hi, ⟨e, he⟩ | ⟨pos, hpos⟩⟩
  · -- all glyphs are taken up, so no read can get further
    obtain ⟨hpattern, -⟩ := after_within hr n
    rcases (reads_after hr n).final_or_lt with hfinal | ⟨hlt, hend⟩
    · exact hfinal
    · rw [hpattern] at hend
      omega
  · exact .inl ⟨_, read_after_of_ok hr hi he⟩
  · exact .inr ⟨pos, read_after_of_surplusClose hr hi hpos⟩

/-- The place that is kept is the first that was kept or that a fault points at. -/
theorem firstFault_after (n : Nat) :
    (r.after n).firstFault = (r.firstFault <|>
      (List.range n).findSome? fun i => location? (r.after i).read.1) := by
  induction n with
  | zero => cases hfault : r.firstFault <;> simp [after, hfault]
  | succ n ih =>
    rw [after, (reads_after hr n).firstFault_eq, ih, List.range_succ, List.findSome?_append]
    simp [Option.or_assoc]

end

/-- What happens when a pattern is read again and again. -/
structure Settles (r : Reader) : Prop where
  /-- Reading several times gives the results of the reads one by one. -/
  readTimes_eq : ∀ times, r.readTimes times = (List.range times).map fun i => (r.after i).read
  /-- No read goes back. -/
  offset_le : ∀ i j, i ≤ j → (r.after i).offset ≤ (r.after j).offset
  /-- After a read that succeeds there is nothing left to explain. -/
  eq_of_ok : ∀ i j e, i < j → (r.after i).read.1 = .ok e → (r.after j).read.1 = .ok ⟨[], .empty⟩
  /-- A parenthesis that closes nothing stays in the way. -/
  eq_of_surplusClose : ∀ i j pos, i < j → (r.after i).read.1 = .error ⟨.surplusClose, pos⟩ →
    (r.after j).read.1 = .error ⟨.surplusClose, pos⟩
  /-- A read with any other fault gets further. -/
  offset_lt : ∀ i f, (r.after i).read.1 = .error f → f.cause ≠ .surplusClose →
    (r.after i).offset < (r.after (i + 1)).offset
  /-- When there were as many reads as there are glyphs, the result stays the same. -/
  final : ∀ i, r.pattern.length ≤ i → Final (r.after i).read.1
  /-- The place that is kept is that of the first fault. -/
  firstFault_eq : ∀ i, (r.after i).firstFault =
    (List.range i).findSome? fun j => location? (r.after j).read.1

end Reader

/-- Reading a pattern again and again gets further with each fault, until all is explained or a
parenthesis that closes nothing is in the way. -/
theorem settles_reader (pattern : Text) (o : Options) :
    Reader.Settles { pattern, options := o } where
  readTimes_eq := Reader.readTimes_eq_map _
  offset_le _ _ := Reader.offset_after_le (Nat.zero_le _)
  eq_of_ok _ _ _ := Reader.read_after_of_ok (Nat.zero_le _)
  eq_of_surplusClose _ _ _ := Reader.read_after_of_surplusClose (Nat.zero_le _)
  offset_lt _ _ := Reader.offset_after_lt (Nat.zero_le _)
  final _ := Reader.final_of_length_le (Nat.zero_le _)
  firstFault_eq i := by
    rw [Reader.firstFault_after (Nat.zero_le _)]
    rfl

/-- The first read stops at a group of no known kind, and the others in front of a parenthesis that
closes nothing. -/
example : (Reader.readTimes { pattern := ['(', '?', ')'], options := {} } 3).map
    (fun x => Reader.location? x.1) = [some ⟨0, 2⟩, some ⟨2, 1⟩, some ⟨2, 1⟩] := by
  decide

end RegexGloss
