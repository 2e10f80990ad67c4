import Mathlib.Algebra.GroupWithZero.Nat
import Mathlib.Data.List.DropRight
import RegexGloss.Proofs.Index.Operations
import RegexGloss.Reader

/-!
# Readers after any operations

A reader is worked with step by step, too: it is asked for glyphs and goes on by them, it keeps the
place of a fault, and it registers spans. Here such operations may come in any number and order.

Each operation belongs to one part of the reader, its place in the pattern, its fault or its index
(`Operation.part`). It only looks at this part (`perform_congr`) and leaves the others as they are
(`shares_perform_of_ne`), so each part is what its own operations have made of it, and operations on
different parts can change places.

Main statement: `Reader.follows_performAll`.
-/

namespace RegexGloss

namespace Reader

/-! ## Operations and their parts -/

/-- What can be done with a reader, a step at a time. -/
inductive Operation where
  /-- Asks for the next glyph, which has to be there. -/
  | current
  /-- Asks for the next glyph. -/
  | peek
  /-- Goes on by one glyph. -/
  | advance
  /-- Goes on by so many glyphs. -/
  | advanceBy (count : Nat)
  /-- Asks for the glyphs not yet read. -/
  | remaining
  /-- Keeps the place of a fault. -/
  | keepFault (place : Location)
  /-- Keeps the place that a fault points at. -/
  | fail (fault : Fault)
  /-- Registers a span, which may join a run. -/
  | register (span : Span) (joins : Bool)
  /-- Ends the run that the latest entry of the index may be. -/
  | closeRun
  /-- Asks for the index. -/
  | index
  /-- Takes the index out. -/
  | takeIndex
  deriving DecidableEq, Repr

/-- What a reader answers to an operation. -/
inductive Reply where
  /-- Nothing but that the operation is carried out. -/
  | done
  /-- The next glyph, or the fault that there is none. -/
  | current (result : Except Fault Char)
  /-- The next glyph, if there is one. -/
  | peek (glyph : Option Char)
  /-- Glyphs of the pattern. -/
  | glyphs (text : Text)
  /-- The fault whose place is kept. -/
  | fault (fault : Fault)
  /-- The span that is rejected. -/
  | rejected (span : EmptySpan)
  /-- An index. -/
  | index (index : SpanIndex)
  deriving Repr

/-- The parts of a reader that operations are about. -/
inductive Part where
  /-- The place in the pattern. -/
  | place
  /-- The place of the first fault. -/
  | fault
  /-- The index of what was read. -/
  | index
  deriving DecidableEq, Repr

namespace Operation

/-- The part of a reader that an operation is about. -/
def part : Operation → Part
  | current | peek | advance | advanceBy _ | remaining => .place
  | keepFault _ | fail _ => .fault
  | register _ _ | closeRun | index | takeIndex => .index

/-- The number of glyphs that an operation goes on by. -/
def count : Operation → Nat
  | advance => 1
  | advanceBy count => count
  | _ => 0

/-- The place of a fault that an operation asks to keep. -/
def place? : Operation → Option Location
  | keepFault place => some place
  | fail fault => some fault.location
  | _ => none

/-- What an operation does to the index, unless it takes the index out. -/
def change? : Operation → Option SpanIndex.Operation
  | register span joins => some (.register span joins)
  | closeRun => some .closeRun
  | _ => none

end Operation

/-- Carries out an operation. The answer comes with the reader after it. -/
def perform (r : Reader) : Operation → Reply × Reader
  | .current => (.current r.current, r)
  | .peek => (.peek r.peek, r)
  | .advance => (.done, r.advance)
  | .advanceBy count => (.done, r.advanceBy count)
  | .remaining => (.glyphs r.remaining, r)
  | .keepFault place => (.done, r.keepFault place)
  | .fail fault => (.fault fault, r.fail fault)
  | .register span joins =>
    match r.register span joins with
    | .ok r => (.done, r)
    | .error e => (.rejected e, r)
  | .closeRun => (.done, r.closeRun)
  | .index => (.index r.index, r)
  | .takeIndex => (.index r.takeIndex.1, r.takeIndex.2)

/-- The reader after operations, the first of them coming first. -/
def performAll (r : Reader) (ops : List Operation) : Reader :=
  ops.foldl (fun r op => (r.perform op).2) r

@[simp]
theorem performAll_nil (r : Reader) : r.performAll [] = r := rfl

theorem performAll_concat (r : Reader) (ops : List Operation) (op : Operation) :
    r.performAll (ops ++ [op]) = ((r.performAll ops).perform op).2 :=
  List.foldl_concat ..

/-! ## Parts of readers -/

/-- Two readers of the same pattern have a part in common. -/
structure Shares (p : Part) (r s : Reader) : Prop where
  /-- The pattern is the same. -/
  pattern_eq : r.pattern = s.pattern
  /-- The pattern is read in the same way. -/
  options_eq : r.options = s.options
  /-- The part is the same. -/
  part_eq : match p with
    | .place => r.offset = s.offset
    | .fault => r.firstFault = s.firstFault
    | .index => r.index = s.index

namespace Shares

variable {p : Part} {r s t : Reader}

theorem refl (p : Part) (r : Reader) : Shares p r r := ⟨rfl, rfl, by cases p <;> rfl⟩

theorem trans (h : Shares p r s) (h' : Shares p s t) : Shares p r t := by
  refine ⟨h.pattern_eq.trans h'.pattern_eq, h.options_eq.trans h'.options_eq, ?_⟩
  cases p with
  | place | fault | index => exact h.part_eq.trans h'.part_eq

theorem symm (h : Shares p r s) : Shares p s r := by
  refine ⟨h.pattern_eq.symm, h.options_eq.symm, ?_⟩
  cases p with
  | place | fault | index => exact h.part_eq.symm

/-- Readers that have all parts in common are the same. -/
theorem eq (h : ∀ p, Shares p r s) : r = s := by
  obtain ⟨hpattern, hoptions, hoffset⟩ := h .place
  have hfault := (h .fault).part_eq
  have hindex := (h .index).part_eq
  obtain ⟨pattern, options, offset, firstFault, index⟩ := r
  dsimp only at hpattern hoptions hoffset hfault hindex
  subst hpattern hoptions hoffset hfault hindex
  rfl

end Shares

/-- A span is registered by the index alone. -/
theorem perform_register (r : Reader) (span : Span) (joins : Bool) :
    r.perform (.register span joins) =
      (match r.index.register span joins with
        | .ok _ => .done
        | .error e => .rejected e,
      { r with index := r.index.perform (.register span joins) }) := by
  simp only [perform, register, SpanIndex.perform]
  cases r.index.register span joins <;> rfl

/-- A span is rejected exactly if it ends before it starts. -/
theorem reply_register (r : Reader) (span : Span) (joins : Bool) :
    (r.perform (.register span joins)).1 =
      if span.start ≤ span.stop then .done else .rejected ⟨span.start, span.stop⟩ := by
  rw [perform_register, SpanIndex.register]
  by_cases hspan : span.start ≤ span.stop
  · simp only [if_pos hspan]
  · simp only [if_neg hspan]

variable {r s : Reader} {p : Part} {op : Operation}

/-- An operation leaves the other parts as they are. -/
theorem shares_perform_of_ne (r : Reader) (h : op.part ≠ p) : Shares p (r.perform op).2 r := by
  cases op with
  | current | peek | remaining | index => exact .refl p r
  | advance | advanceBy =>
    refine ⟨rfl, rfl, ?_⟩
    cases p with
    | place => exact absurd rfl h
    | fault | index => rfl
  | keepFault | fail =>
    refine ⟨rfl, rfl, ?_⟩
    cases p with
    | fault => exact absurd rfl h
    | place | index => rfl
  | register =>
    rw [perform_register]
    refine ⟨rfl, rfl, ?_⟩
    cases p with
    | index => exact absurd rfl h
    | place | fault => rfl
  | closeRun | takeIndex =>
    refine ⟨rfl, rfl, ?_⟩
    cases p with
    | index => exact absurd rfl h
    | place | fault => rfl

/-- The answer to an operation, and what it makes of its part, depend on this part alone. -/
theorem perform_congr (h : Shares op.part r s) :
    (r.perform op).1 = (s.perform op).1 ∧ Shares op.part (r.perform op).2 (s.perform op).2 := by
  obtain ⟨pattern, options, offset, firstFault, index⟩ := r
  obtain ⟨pattern', options', offset', firstFault', index'⟩ := s
  obtain ⟨hpattern, hoptions, hpart⟩ := h
  dsimp only at hpattern hoptions
  subst hpattern hoptions
  cases op with
  | current | peek | advance | advanceBy | remaining =>
    obtain rfl : offset = offset' := hpart
    exact ⟨rfl, rfl, rfl, rfl⟩
  | keepFault | fail =>
    obtain rfl : firstFault = firstFault' := hpart
    exact ⟨rfl, rfl, rfl, rfl⟩
  | register =>
    obtain rfl : index = index' := hpart
    rw [perform_register, perform_register]
    exact ⟨rfl, rfl, rfl, rfl⟩
  | closeRun | index | takeIndex =>
    obtain rfl : index = index' := hpart
    exact ⟨rfl, rfl, rfl, rfl⟩

/-- Operations on different parts can change places. -/
theorem perform_comm {a b : Operation} (r : Reader) (hab : a.part ≠ b.part) :
    ((r.perform a).2.perform b).2 = ((r.perform b).2.perform a).2 := by
  refine Shares.eq fun p => ?_
  by_cases ha : a.part = p
  · subst ha
    have hb := shares_perform_of_ne r hab.symm
    exact (shares_perform_of_ne _ hab.symm).trans (perform_congr hb).2.symm
  · have ha' := shares_perform_of_ne (r.perform b).2 ha
    refine .trans ?_ ha'.symm
    by_cases hb : b.part = p
    · subst hb
      exact (perform_congr (shares_perform_of_ne r ha)).2
    · exact ((shares_perform_of_ne _ hb).trans (shares_perform_of_ne r ha)).trans
        (shares_perform_of_ne r hb).symm

/-- A part is what the operations on it have made of it. -/
theorem shares_performAll_filter (r : Reader) (ops : List Operation) (p : Part) :
    Shares p (r.performAll ops) (r.performAll (ops.filter (·.part = p))) := by
  induction ops using List.reverseRecOn with
  | nil => exact .refl p r
  | append_singleton ops op ih =>
    rw [performAll_concat, List.filter_append]
    by_cases hp : op.part = p
    · subst hp
      rw [List.filter_cons_of_pos (by simp), List.filter_nil, performAll_concat]
      exact (perform_congr ih).2
    · rw [List.filter_cons_of_neg (by simpa using hp), List.filter_nil, List.append_nil]
      exact (shares_perform_of_ne _ hp).trans ih

/-- No operation changes the pattern or how it is read. -/
theorem pattern_performAll (r : Reader) (ops : List Operation) :
    (r.performAll ops).pattern = r.pattern ∧ (r.performAll ops).options = r.options := by
  induction ops using List.reverseRecOn with
  | nil => exact ⟨rfl, rfl⟩
  | append_singleton ops op ih =>
    -- the pattern is shared with any of the parts that the operation is not about
    obtain ⟨p, hp⟩ : ∃ p, op.part ≠ p := by
      cases op.part with
      | place => exact ⟨.fault, nofun⟩
      | fault | index => exact ⟨.place, nofun⟩
    have hshares := shares_perform_of_ne (r.performAll ops) hp
    rw [performAll_concat]
    exact ⟨hshares.pattern_eq.trans ih.1, hshares.options_eq.trans ih.2⟩

/-! ## What operations make of the parts -/

/-- An operation goes on by its number of glyphs, but not past the end of the pattern. -/
theorem offset_perform (hr : r.offset ≤ r.pattern.length) (op : Operation) :
    (r.perform op).2.offset = min r.pattern.length (r.offset + op.count) := by
  cases op with
  | advance | advanceBy => exact Nat.min_comm _ _
  | register =>
    rw [perform_register]
    exact (Nat.min_eq_right hr).symm
  | _ => exact (Nat.min_eq_right hr).symm

/-- An operation keeps the place it asks to keep, unless there was one before. -/
theorem firstFault_perform (r : Reader) (op : Operation) :
    (r.perform op).2.firstFault = (r.firstFault <|> op.place?) := by
  have hnone : (r.firstFault <|> none) = r.firstFault := by cases r.firstFault <;> rfl
  cases op with
  | keepFault | fail => rfl
  | register =>
    rw [perform_register]
    exact hnone.symm
  | _ => exact hnone.symm

/-- An operation that does not take the index out changes it as it changes any index. -/
theorem index_perform (r : Reader) (h : op ≠ .takeIndex) :
    (r.perform op).2.index = op.change?.elim r.index r.index.perform := by
  cases op with
  | takeIndex => exact absurd rfl h
  | register =>
    rw [perform_register]
    rfl
  | _ => rfl

/-- The offset is the number of glyphs that the operations go on by, or the end of the pattern. -/
theorem offset_performAll (hr : r.offset ≤ r.pattern.length) (ops : List Operation) :
    (r.performAll ops).offset =
      min r.pattern.length (r.offset + (ops.map Operation.count).sum) := by
  induction ops using List.reverseRecOn with
  | nil => exact (Nat.min_eq_right hr).symm
  | append_singleton ops op ih =>
    have hpattern := (pattern_performAll r ops).1
    have hle : (r.performAll ops).offset ≤ (r.performAll ops).pattern.length := by
      rw [ih, hpattern]
      exact Nat.min_le_left _ _
    rw [performAll_concat, offset_perform hle, ih, hpattern, List.map_append, List.sum_append,
      List.map_singleton, List.sum_singleton]
    -- going on to the end and then further is going on to the end
    omega

/-- The place that is kept is the one kept before, or else the first one that an operation asks to
keep. -/
theorem firstFault_performAll (r : Reader) (ops : List Operation) :
    (r.performAll ops).firstFault = (r.firstFault <|> ops.findSome? (·.place?)) := by
  induction ops using List.reverseRecOn with
  | nil => cases h : r.firstFault <;> simp [h]
  | append_singleton ops op ih =>
    rw [performAll_concat, firstFault_perform, ih, List.findSome?_append]
    simp [Option.or_assoc]

/-- The operations after the index was taken out for the last time. -/
def sinceTaken (ops : List Operation) : List Operation := ops.rtakeWhile (· ≠ .takeIndex)

/-- The index is built from an empty one by what was done to it since it was taken out. -/
theorem index_performAll (hr : r.index = .empty) (ops : List Operation) :
    (r.performAll ops).index =
      SpanIndex.performAll .empty ((sinceTaken ops).filterMap (·.change?)) := by
  induction ops using List.reverseRecOn with
  | nil => exact hr
  | append_singleton ops op ih =>
    rw [performAll_concat]
    by_cases htake : op = .takeIndex
    · subst htake
      rw [sinceTaken, List.rtakeWhile_concat_neg _ _ _ (by simp)]
      rfl
    · rw [sinceTaken, List.rtakeWhile_concat_pos _ _ _ (by simpa using htake), ← sinceTaken,
        List.filterMap_append, index_perform _ htake, ih, SpanIndex.performAll,
        SpanIndex.performAll, List.foldl_append]
      cases h : op.change? <;> simp [h]

/-! ## Any operations -/

/-- What a reader of a pattern is like after operations on one that stood at the start. -/
structure Follows (pattern : Text) (o : Options) (ops : List Operation) (r : Reader) : Prop where
  /-- The pattern stays the same. -/
  pattern_eq : r.pattern = pattern
  /-- The pattern is read as before. -/
  options_eq : r.options = o
  /-- The operations go on to the sum of their glyphs, or to the end of the pattern. -/
  offset_eq : r.offset = min pattern.length (ops.map Operation.count).sum
  /-- No further operation goes back. -/
  offset_le : ∀ op, r.offset ≤ (r.perform op).2.offset
  /-- If the sum of the glyphs can be held with 64 bits, no operation comes upon a larger number. -/
  fits : (ops.map Operation.count).sum < UInt64.size → ∀ before op after,
    ops = before ++ op :: after →
      (performAll { pattern, options := o } before).offset + op.count < UInt64.size
  /-- The reader stands within the pattern. -/
  offset_le_length : r.offset ≤ pattern.length
  /-- The glyphs behind the offset remain. -/
  remaining_eq : r.remaining = pattern.drop r.offset
  /-- There is no next glyph exactly if nothing remains, and the fault is at the offset. -/
  current_eq_error_iff : ∀ f,
    r.current = .error f ↔ r.remaining = [] ∧ f = ⟨.endOfPattern, r.offset⟩
  /-- The next glyph is the first one that remains. -/
  current_eq_ok_iff : ∀ c, r.current = .ok c ↔ r.remaining.head? = some c
  /-- The answers on the place in the pattern are the next glyph and the glyphs that remain. -/
  place_replies : (r.perform .current).1 = .current r.current ∧
    (r.perform .peek).1 = .peek r.remaining.head? ∧
    (r.perform .remaining).1 = .glyphs r.remaining
  /-- The place that is kept is the first one to be kept. -/
  firstFault_eq : r.firstFault = ops.findSome? (·.place?)
  /-- A fault is handed back when its place is kept. -/
  fault_reply : ∀ f, (r.perform (.fail f)).1 = .fault f
  /-- The index is built by what was done to it since it was taken out. -/
  index_eq : r.index = SpanIndex.performAll .empty ((sinceTaken ops).filterMap (·.change?))
  /-- The index is handed out as it is, also when it is taken out. A span is rejected exactly if it
  ends before it starts. -/
  index_replies : (r.perform .index).1 = .index r.index ∧
    (r.perform .takeIndex).1 = .index r.index ∧
    ∀ span joins, (r.perform (.register span joins)).1 =
      if span.start ≤ span.stop then .done else .rejected ⟨span.start, span.stop⟩
  /-- Each part, and the answer to an operation on it, is what its own operations have made of
  it. -/
  apart : ∀ op, Shares op.part r
      (performAll { pattern, options := o } (ops.filter (·.part = op.part))) ∧
    (r.perform op).1 =
      ((performAll { pattern, options := o } (ops.filter (·.part = op.part))).perform op).1
  /-- Operations on different parts can change places, and the answers stay the same. -/
  comm : ∀ a b, a.part ≠ b.part →
    ((r.perform a).2.perform b).2 = ((r.perform b).2.perform a).2 ∧
      ((r.perform a).2.perform b).1 = (r.perform b).1 ∧
      ((r.perform b).2.perform a).1 = (r.perform a).1

theorem current_eq_error_iff (r : Reader) (f : Fault) :
    r.current = .error f ↔ r.remaining = [] ∧ f = ⟨.endOfPattern, r.offset⟩ := by
  rw [Reader.current, Reader.peek]
  cases r.remaining with
  | nil => simp [eq_comm]
  | cons c t => simp

theorem current_eq_ok_iff (r : Reader) (c : Char) :
    r.current = .ok c ↔ r.remaining.head? = some c := by
  rw [Reader.current, Reader.peek]
  cases r.remaining with
  | nil => simp
  | cons d t => simp

/-- Operations in any number and order keep the parts of a reader apart. -/
theorem follows_performAll (pattern : Text) (o : Options) (ops : List Operation) :
    Follows pattern o ops (performAll { pattern, options := o } ops) := by
  have hoffset (ops : List Operation) :
      (performAll { pattern, options := o } ops).offset =
        min pattern.length (ops.map Operation.count).sum :=
    (offset_performAll (Nat.zero_le _) ops).trans (by rw [Nat.zero_add])
  obtain ⟨hpattern, hoptions⟩ : (performAll { pattern, options := o } ops).pattern = pattern ∧
      (performAll { pattern, options := o } ops).options = o := pattern_performAll _ ops
  have hle : (performAll { pattern, options := o } ops).offset ≤ pattern.length := by
    rw [hoffset]
    exact Nat.min_le_left _ _
  refine
    { pattern_eq := hpattern
      options_eq := hoptions
      offset_eq := hoffset ops
      offset_le := ?_
      fits := ?_
      offset_le_length := hle
      remaining_eq := by rw [Reader.remaining, hpattern]
      current_eq_error_iff := current_eq_error_iff _
      current_eq_ok_iff := current_eq_ok_iff _
      place_replies := ⟨rfl, rfl, rfl⟩
      firstFault_eq := firstFault_performAll _ ops
      fault_reply := fun _ => rfl
      index_eq := index_performAll rfl ops
      index_replies := ⟨rfl, rfl, reply_register _⟩
      apart := ?_
      comm := ?_ }
  · intro op
    rw [offset_perform (by rwa [hpattern]), hpattern]
    exact Nat.le_min.2 ⟨hle, Nat.le_add_right _ _⟩
  · rintro hsum before op after rfl
    rw [List.map_append, List.map_cons, List.sum_append, List.sum_cons] at hsum
    rw [hoffset]
    omega
  · intro op
    have hshares := shares_performAll_filter { pattern, options := o } ops op.part
    exact ⟨hshares, (perform_congr hshares).1⟩
  · intro a b hab
    exact ⟨perform_comm _ hab, (perform_congr (shares_perform_of_ne _ hab)).1,
      (perform_congr (shares_perform_of_ne _ hab.symm)).1⟩

/-- The end stops a reader, the first fault keeps its place, and a new index is empty. -/
example : performAll { pattern := ['a', 'b'], options := {} }
    [.fail ⟨.unclosedGroup, 1⟩, .advanceBy 5, .register ⟨.literal, 0, 1, ['a', 'b']⟩ true,
      .fail ⟨.unclosedGroup, 0⟩, .takeIndex] =
    { pattern := ['a', 'b'], options := {}, offset := 2, firstFault := some ⟨1, 1⟩ } := by
  decide

end Reader

end RegexGloss
