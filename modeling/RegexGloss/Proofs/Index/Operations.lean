import Mathlib.Data.List.Induction
import Mathlib.Data.List.SplitBy
import RegexGloss.SpanIndex

/-!
# Indexes after any operations

An index is changed in place: a literal that is registered may extend the latest entry, and closing
a run only clears a flag. Here the operations may come in any number and order, and the spans need
not fit together, so that an entry which is extended can even end before it starts.

What the index holds after them can be told without going through them one by one. The operations
fall into blocks (`SpanIndex.blocks`), literals that are registered directly one after the other
being one block, and there is one entry for each block of spans. An entry that ends before it starts
covers no glyph, so no lookup measures it.

Main statement: `SpanIndex.answers_performAll`.
-/

namespace RegexGloss

/-! ## Narrowest spans -/

namespace Span

/-- The narrowest span is narrower than those before it, and no wider than those behind it. -/
theorem narrowest?_eq_some_iff (ss : List Span) (s : Span) :
    narrowest? ss = some s ↔ ∃ before after, ss = before ++ s :: after ∧
      (∀ r ∈ before, s.width < r.width) ∧ ∀ r ∈ after, s.width ≤ r.width := by
  constructor
  · intro h
    induction ss with
    | nil => cases h
    | cons q ss ih =>
      rw [narrowest?] at h
      cases hn : narrowest? ss with
      | none =>
        obtain rfl := (narrowest?_eq_none_iff ss).1 hn
        rw [hn] at h
        obtain rfl := Option.some.inj h
        exact ⟨[], [], rfl, List.forall_mem_nil _, List.forall_mem_nil _⟩
      | some t =>
        have hle := width_le_of_narrowest?_eq_some hn
        rw [hn] at h
        dsimp only at h
        split at h
        -- the first span is kept unless a narrower one follows
        · rename_i hq
          obtain rfl := Option.some.inj h
          exact ⟨[], ss, rfl, List.forall_mem_nil _, fun r hr => Nat.le_trans hq (hle r hr)⟩
        · obtain rfl := Option.some.inj h
          obtain ⟨before, after, rfl, hbefore, hafter⟩ := ih hn
          refine ⟨q :: before, after, rfl, ?_, hafter⟩
          intro r hr
          rcases List.mem_cons.1 hr with rfl | hr
          · omega
          · exact hbefore r hr
  · rintro ⟨before, after, rfl, hbefore, hafter⟩
    -- each span before it is passed, because a narrower one follows
    induction before with
    | nil =>
      rw [List.nil_append, narrowest?]
      cases hn : narrowest? after with
      | none => rfl
      | some t => exact if_pos (hafter t (mem_of_narrowest?_eq_some hn))
    | cons b before ih =>
      have hb := hbefore b List.mem_cons_self
      have hrest := ih fun r hr => hbefore r (List.mem_cons_of_mem _ hr)
      rw [List.cons_append, narrowest?, hrest]
      exact if_neg (by omega)

/-- The width of a span where numbers have 64 bits. There is none where a difference would be
negative or a sum too large. -/
def width64? (s : Span) : Option Nat :=
  if s.start ≤ s.stop ∧ s.stop - s.start + 1 < UInt64.size then
    some (s.stop - s.start + 1)
  else
    none

/-- A span at a glyph can be measured with 64 bits. -/
theorem width64?_of_contains {s : Span} {offset : Nat} (h : s.contains offset)
    (hstop : s.stop < UInt64.size - 1) : s.width64? = some s.width := by
  obtain ⟨hstart, hle⟩ := (s.contains_iff offset).1 h
  have hwidth : s.stop - s.start + 1 = s.width := by
    rw [width]
    omega
  rw [width64?, if_pos ⟨Nat.le_trans hstart hle, by omega⟩, hwidth]

end Span

/-! ## Operations and their blocks -/

namespace SpanIndex

/-- What can be done to an index. -/
inductive Operation where
  /-- Registers a span, which may join a run. -/
  | register (span : Span) (joins : Bool)
  /-- Ends the run that the latest entry may be. -/
  | closeRun
  deriving DecidableEq, Repr

namespace Operation

/-- Whether an operation registers a span that may join a run. -/
def joins : Operation → Bool
  | register _ joins => joins
  | closeRun => false

/-- The span that an operation registers. -/
def span? : Operation → Option Span
  | register span _ => some span
  | closeRun => none

/-- Whether an operation is carried out. A span that ends before it starts is rejected. -/
def isAccepted : Operation → Bool
  | register span _ => span.start ≤ span.stop
  | closeRun => true

end Operation

/-- The index after an operation. One that is rejected changes nothing. -/
def perform (i : SpanIndex) : Operation → SpanIndex
  | .register span joins =>
    match i.register span joins with
    | .ok j => j
    | .error _ => i
  | .closeRun => i.closeRun

/-- Registering a span that ends before it starts changes nothing. -/
theorem perform_register_of_lt {i : SpanIndex} {s : Span} (h : s.stop < s.start) (joins : Bool) :
    i.perform (.register s joins) = i := by
  rw [perform, register, if_neg (by omega)]

/-- Registering a span that has an end adds it. -/
theorem perform_register_of_le {i : SpanIndex} {s : Span} (h : s.start ≤ s.stop) (joins : Bool) :
    i.perform (.register s joins) = i.push s joins := by
  rw [perform, register, if_pos h]

/-- The index after operations, the first of them coming first. -/
def performAll (i : SpanIndex) (ops : List Operation) : SpanIndex := ops.foldl perform i

/-- Two operations that follow each other go on with the same run if both register spans that may
join one. -/
def continues (p q : Operation) : Bool := p.joins && q.joins

/-- The operations that are carried out. -/
def accepted (ops : List Operation) : List Operation := ops.filter (·.isAccepted)

/-- The spans that are registered, in blocks: a span is in the same block as the one registered
before it if both may join a run and no run was closed in between. Rejected spans are left out. -/
def blocks (ops : List Operation) : List (List Span) :=
  (((accepted ops).splitBy continues).map (·.filterMap (·.span?))).filter (· ≠ [])

/-- An entry that sums up the spans of a block. -/
structure SumsUp (s : Span) (block : List Span) : Prop where
  /-- The entry starts with the first span of the block, and is of the same kind. -/
  first : ∃ r, block.head? = some r ∧ s.kind = r.kind ∧ s.start = r.start
  /-- The entry ends with the last span of the block. -/
  last : ∃ r, block.getLast? = some r ∧ s.stop = r.stop
  /-- The texts of the block are put together. -/
  text : s.text = (block.map Span.text).flatten

theorem sumsUp_singleton (s : Span) : SumsUp s [s] :=
  ⟨⟨s, rfl, rfl, rfl⟩, ⟨s, rfl, rfl⟩, (List.append_nil _).symm⟩

/-- An entry is extended with the block that it sums up. -/
theorem SumsUp.concat {s : Span} {block : List Span} (h : SumsUp s block) (r : Span) :
    SumsUp { s with stop := r.stop, text := s.text ++ r.text } (block ++ [r]) := by
  obtain ⟨first, hfirst, hkind, hstart⟩ := h.first
  refine ⟨⟨first, ?_, hkind, hstart⟩, ⟨r, List.getLast?_concat, rfl⟩, ?_⟩
  · rw [List.head?_append, hfirst, Option.some_or]
  · show s.text ++ r.text = ((block ++ [r]).map Span.text).flatten
    rw [h.text, List.map_append, List.flatten_append]
    simp

/-! ## Blocks of one more operation -/

section

variable {ops : List Operation} {op : Operation}

theorem accepted_concat_of_accepted (h : op.isAccepted) :
    accepted (ops ++ [op]) = accepted ops ++ [op] := by
  rw [accepted, List.filter_append, List.filter_cons_of_pos h, List.filter_nil]
  rfl

theorem accepted_concat_of_rejected (h : op.isAccepted = false) :
    accepted (ops ++ [op]) = accepted ops := by
  rw [accepted, List.filter_append, List.filter_cons_of_neg (by simp [h]), List.filter_nil,
    List.append_nil]
  rfl

/-- An operation that does not go on with the one before starts a block, if it registers a span. -/
theorem blocks_concat_of_not_continues (haccepted : op.isAccepted)
    (h : ∀ last ∈ (accepted ops).getLast?, continues last op = false) :
    blocks (ops ++ [op]) = blocks ops ++ (op.span?.map ([·])).toList := by
  have hsplit := List.splitBy_append_cons [] h
  rw [blocks, accepted_concat_of_accepted haccepted, hsplit, List.map_append, List.filter_append]
  cases op with
  | register span joins => rfl
  | closeRun => rfl

end

/-- A list that is related to one with a last element has a last element too. -/
theorem exists_concat_of_forall₂_concat {α β : Type} {r : α → β → Prop} {l : List α}
    {init : List β} {b : β} (h : List.Forall₂ r l (init ++ [b])) :
    ∃ first a, l = first ++ [a] ∧ List.Forall₂ r first init ∧ r a b := by
  have hfirst := List.forall₂_take_append l init [b] h
  have hdrop := List.forall₂_drop_append l init [b] h
  obtain ⟨a, rest, ha, hrest, hsplit⟩ := List.forall₂_cons_right_iff.1 hdrop
  obtain rfl := List.forall₂_nil_right_iff.1 hrest
  exact ⟨l.take init.length, a, by rw [← hsplit, List.take_append_drop], hfirst, ha⟩

/-- An element that is related to the last one of a list belongs to the last block of it. -/
theorem exists_splitBy_concat {α : Type} {r : α → α → Bool} {l : List α} {last a : α}
    (hlast : l.getLast? = some last) (hr : r last a) :
    ∃ init block, l.splitBy r = init ++ [block] ∧ block.getLast? = some last ∧
      (l ++ [a]).splitBy r = init ++ [block ++ [a]] := by
  obtain ⟨hflatten, hnil, hchains, hends⟩ := List.splitBy_eq_iff.1 (rfl : l.splitBy r = _)
  rcases List.eq_nil_or_concat' (l.splitBy r) with hsplit | ⟨init, block, hsplit⟩
  · rw [List.splitBy_eq_nil.1 hsplit] at hlast
    cases hlast
  rw [hsplit] at hflatten hnil hchains hends
  have hblock : block ≠ [] := fun h => hnil (by simp [h])
  have hblocklast : block.getLast? = some last := by
    rwa [hflatten, List.flatten_append, List.flatten_singleton,
      List.getLast?_append_of_ne_nil _ hblock] at hlast
  refine ⟨init, block, hsplit, hblocklast, List.splitBy_eq_iff.2 ⟨?_, ?_, ?_, ?_⟩⟩
  · rw [hflatten]
    simp
  · intro hmem
    rcases List.mem_append.1 hmem with hmem | hmem
    · exact hnil (List.mem_append_left _ hmem)
    · simp at hmem
  · intro m hm
    rcases List.mem_append.1 hm with hm | hm
    · exact hchains m (List.mem_append_left _ hm)
    · obtain rfl := List.mem_singleton.1 hm
      refine (hchains block (by simp)).append (List.isChain_singleton a) ?_
      intro x hx y hy
      obtain rfl : last = x := Option.some.inj (hblocklast.symm.trans hx)
      obtain rfl : a = y := Option.some.inj hy
      exact hr
  · -- the last block starts as it did, so it is still apart from the one before
    rw [List.isChain_append] at hends ⊢
    refine ⟨hends.1, List.isChain_singleton _, fun x hx y hy => ?_⟩
    obtain rfl : block ++ [a] = y := Option.some.inj hy
    obtain ⟨hx', _, hapart⟩ := hends.2.2 x hx block rfl
    refine ⟨hx', by simp, ?_⟩
    rwa [List.head_append_of_ne_nil hblock]

/-- An operation that goes on with the one before extends the last block. -/
theorem exists_blocks_concat {ops : List Operation} {last : Operation} {span : Span}
    (haccepted : span.start ≤ span.stop) (hlast : (accepted ops).getLast? = some last)
    (hjoins : last.joins) :
    ∃ init block, blocks ops = init ++ [block] ∧
      blocks (ops ++ [.register span true]) = init ++ [block ++ [span]] := by
  have hop : (Operation.register span true).isAccepted = true := decide_eq_true haccepted
  have hcontinues : continues last (.register span true) = true := by
    rw [continues, hjoins]
    rfl
  obtain ⟨init, block, hsplit, hblock, hsplit'⟩ := exists_splitBy_concat hlast hcontinues
  -- the last operation has registered a span, so the block is not empty
  have hspans : block.filterMap (·.span?) ≠ [] := by
    cases last with
    | closeRun => cases hjoins
    | register r joins =>
      have hmem := List.mem_of_getLast? hblock
      exact List.ne_nil_of_mem (List.mem_filterMap.2 ⟨_, hmem, rfl⟩)
  refine ⟨(init.map (·.filterMap (·.span?))).filter (· ≠ []), block.filterMap (·.span?), ?_, ?_⟩
  · rw [blocks, hsplit, List.map_append, List.filter_append]
    simp [hspans]
  · rw [blocks, accepted_concat_of_accepted hop, hsplit', List.map_append, List.filter_append]
    simp [Operation.span?]

/-! ## Entries and blocks -/

/-- Registering a span that joins no run adds an entry. -/
theorem push_of_not_joins {i : SpanIndex} {joins : Bool} (h : (joins && i.runOpen) = false)
    (s : Span) : i.push s joins = ⟨s :: i.latest, joins⟩ := by
  rw [push, h]

/-- Registering a span that joins a run extends the latest entry. -/
theorem push_of_joins {i : SpanIndex} (hopen : i.runOpen = true) {init : List Span} {last : Span}
    (hentries : i.entries = init ++ [last]) (s : Span) :
    i.push s true =
      ⟨{ last with stop := s.stop, text := last.text ++ s.text } :: init.reverse, true⟩ := by
  have hlatest : i.latest = last :: init.reverse := by
    rw [← List.reverse_reverse i.latest, ← entries, hentries, List.reverse_concat]
  rw [push, hopen, hlatest]
  rfl

/-- The entries of an index sum up the blocks of operations, and a run is open exactly if the last
operation that was not rejected has registered a span that may join one. -/
structure Tallies (i : SpanIndex) (ops : List Operation) : Prop where
  /-- There is one entry for each block, in order. -/
  entries : List.Forall₂ SumsUp i.entries (blocks ops)
  /-- The last operation tells whether a run is open. -/
  runOpen : i.runOpen = (accepted ops).getLast?.any (·.joins)

theorem tallies_empty : Tallies empty [] := ⟨.nil, rfl⟩

/-- Closing a run changes no entry. -/
theorem Tallies.closeRun {i : SpanIndex} {ops : List Operation} (h : i.Tallies ops) :
    i.closeRun.Tallies (ops ++ [.closeRun]) := by
  have haccepted : Operation.closeRun.isAccepted = true := rfl
  refine ⟨?_, ?_⟩
  · rw [blocks_concat_of_not_continues haccepted fun last _ => Bool.and_false _]
    exact (List.append_nil (blocks ops)).symm ▸ h.entries
  · rw [accepted_concat_of_accepted haccepted, List.getLast?_concat]
    rfl

/-- A span that is registered joins the last block or starts one. -/
theorem Tallies.push {i : SpanIndex} {ops : List Operation} (h : i.Tallies ops) {s : Span}
    (hs : s.start ≤ s.stop) (joins : Bool) :
    (i.push s joins).Tallies (ops ++ [.register s joins]) := by
  have haccepted : (Operation.register s joins).isAccepted = true := decide_eq_true hs
  cases hjoins : joins && i.runOpen with
  | false =>
    rw [push_of_not_joins hjoins]
    refine ⟨?_, ?_⟩
    · rw [blocks_concat_of_not_continues haccepted]
      · have hentries : SpanIndex.entries ⟨s :: i.latest, joins⟩ = i.entries ++ [s] :=
          List.reverse_cons
        rw [hentries]
        exact List.rel_append h.entries (.cons (sumsUp_singleton s) .nil)
      · intro last hlast
        rw [h.runOpen, hlast, Option.any_some, Bool.and_comm] at hjoins
        exact hjoins
    · rw [accepted_concat_of_accepted haccepted, List.getLast?_concat]
      rfl
  | true =>
    obtain ⟨rfl, hopen⟩ := Bool.and_eq_true_iff.1 hjoins
    obtain ⟨last, hlast, hlastjoins⟩ :
        ∃ last, (accepted ops).getLast? = some last ∧ last.joins = true := by
      have hany := h.runOpen.symm.trans hopen
      cases hlast : (accepted ops).getLast? with
      | none =>
        rw [hlast] at hany
        cases hany
      | some last =>
        rw [hlast] at hany
        exact ⟨last, rfl, hany⟩
    obtain ⟨init, block, hblocks, hblocks'⟩ := exists_blocks_concat hs hlast hlastjoins
    have hentries := h.entries
    rw [hblocks] at hentries
    -- the latest entry is the one of the last block
    obtain ⟨first, latest, hi, hfirst, hlatest⟩ := exists_concat_of_forall₂_concat hentries
    refine ⟨?_, ?_⟩
    · have hpush : (i.push s true).entries =
          first ++ [{ latest with stop := s.stop, text := latest.text ++ s.text }] := by
        rw [push_of_joins hopen hi, SpanIndex.entries, List.reverse_cons, List.reverse_reverse]
      rw [hpush, hblocks']
      exact List.rel_append hfirst (.cons (hlatest.concat s) .nil)
    · rw [push_of_joins hopen hi, accepted_concat_of_accepted haccepted, List.getLast?_concat]
      rfl

/-- One more operation keeps the entries in step with the blocks. -/
theorem Tallies.perform {i : SpanIndex} {ops : List Operation} (h : i.Tallies ops)
    (op : Operation) : (i.perform op).Tallies (ops ++ [op]) := by
  cases op with
  | closeRun => exact h.closeRun
  | register s joins =>
    by_cases hs : s.start ≤ s.stop
    · rw [perform_register_of_le hs]
      exact h.push hs joins
    -- a span that ends before it starts leaves the index as it is
    · have hrejected : (Operation.register s joins).isAccepted = false := decide_eq_false hs
      rw [perform_register_of_lt (Nat.lt_of_not_le hs)]
      refine ⟨?_, ?_⟩
      · rw [blocks, accepted_concat_of_rejected hrejected]
        exact h.entries
      · rw [accepted_concat_of_rejected hrejected]
        exact h.runOpen

/-- The entries of an index sum up the blocks of the operations on it. -/
theorem tallies_performAll (ops : List Operation) : (performAll empty ops).Tallies ops := by
  induction ops using List.reverseRecOn with
  | nil => exact tallies_empty
  | append_singleton ops op ih =>
    rw [performAll, List.foldl_concat]
    exact ih.perform op

/-! ## Lookups -/

/-- A lookup finds an entry at a glyph that is narrower than those before it at this glyph, and no
wider than those behind it. -/
theorem lookup_eq_some_iff (i : SpanIndex) (offset : Nat) (s : Span) :
    i.lookup offset = some s ↔ ∃ before after, i.entries = before ++ s :: after ∧
      s.contains offset ∧ (∀ r ∈ before, r.contains offset → s.width < r.width) ∧
      ∀ r ∈ after, r.contains offset → s.width ≤ r.width := by
  rw [lookup, Span.narrowest?_eq_some_iff]
  constructor
  · rintro ⟨_, _, hfilter, hbefore, hafter⟩
    obtain ⟨before, _, hentries, rfl, hrest⟩ := List.filter_eq_append_iff.1 hfilter
    obtain ⟨apart, after, rfl, hapart, hs, rfl⟩ := List.filter_eq_cons_iff.1 hrest
    refine ⟨before ++ apart, after, by rw [hentries, List.append_assoc], hs, ?_, ?_⟩
    · intro r hr hcontains
      rcases List.mem_append.1 hr with hr | hr
      · exact hbefore r (List.mem_filter.2 ⟨hr, hcontains⟩)
      · exact absurd hcontains (hapart r hr)
    · exact fun r hr hcontains => hafter r (List.mem_filter.2 ⟨hr, hcontains⟩)
  · rintro ⟨before, after, hentries, hs, hbefore, hafter⟩
    refine ⟨before.filter (·.contains offset), after.filter (·.contains offset), ?_, ?_, ?_⟩
    · rw [hentries, List.filter_append, List.filter_cons, if_pos hs]
    · intro r hr
      obtain ⟨hr, hcontains⟩ := List.mem_filter.1 hr
      exact hbefore r hr hcontains
    · intro r hr
      obtain ⟨hr, hcontains⟩ := List.mem_filter.1 hr
      exact hafter r hr hcontains

/-- The spans of a block have been registered. -/
theorem exists_register_of_mem_blocks {ops : List Operation} {block : List Span}
    (hblock : block ∈ blocks ops) {s : Span} (hs : s ∈ block) :
    ∃ joins, Operation.register s joins ∈ ops := by
  obtain ⟨hblock, -⟩ := List.mem_filter.1 hblock
  obtain ⟨part, hpart, rfl⟩ := List.mem_map.1 hblock
  obtain ⟨op, hop, hspan⟩ := List.mem_filterMap.1 hs
  have hmem : op ∈ accepted ops := by
    rw [← List.flatten_splitBy continues (accepted ops)]
    exact List.mem_flatten_of_mem hpart hop
  cases op with
  | closeRun => cases hspan
  | register r joins =>
    obtain rfl : r = s := Option.some.inj hspan
    exact ⟨joins, (List.mem_filter.1 hmem).1⟩

/-- An entry ends with a span that has been registered. -/
theorem Tallies.exists_register {i : SpanIndex} {ops : List Operation} (h : i.Tallies ops)
    {s : Span} (hs : s ∈ i.entries) :
    ∃ r joins, Operation.register r joins ∈ ops ∧ s.stop = r.stop := by
  obtain ⟨hlength, hget⟩ := List.forall₂_iff_get.1 h.entries
  obtain ⟨k, hk, rfl⟩ := List.mem_iff_getElem.1 hs
  obtain ⟨r, hr, hstop⟩ := (hget k hk (hlength ▸ hk)).last
  have hmem := List.mem_of_getLast? hr
  obtain ⟨joins, hregister⟩ := exists_register_of_mem_blocks (List.get_mem ..) hmem
  exact ⟨r, joins, hregister, hstop⟩

/-- What an index answers after operations on the one without entries. -/
structure Answers (i : SpanIndex) (ops : List Operation) : Prop where
  /-- There is one entry for each block, in order. -/
  entries : List.Forall₂ SumsUp i.entries (blocks ops)
  /-- A span that ends before it starts is rejected, and nothing is changed. -/
  rejects : ∀ s joins, s.stop < s.start →
    i.register s joins = .error ⟨s.start, s.stop⟩ ∧ i.perform (.register s joins) = i
  /-- Nothing is found at a glyph exactly if no entry covers it. -/
  lookup_eq_none_iff : ∀ offset,
    i.lookup offset = none ↔ ∀ s ∈ i.entries, ¬(s.start ≤ offset ∧ offset ≤ s.stop)
  /-- An entry is found at a glyph exactly if it covers the glyph, is narrower than those before it
  that do so too, and no wider than those behind it. -/
  lookup_eq_some_iff : ∀ offset s, i.lookup offset = some s ↔
    ∃ before after, i.entries = before ++ s :: after ∧ (s.start ≤ offset ∧ offset ≤ s.stop) ∧
      (∀ r ∈ before, r.start ≤ offset ∧ offset ≤ r.stop → s.width < r.width) ∧
      ∀ r ∈ after, r.start ≤ offset ∧ offset ≤ r.stop → s.width ≤ r.width
  /-- The entries that a lookup compares can be measured with 64 bits, if no span that has been
  registered ends with the last number of this size. -/
  width64?_eq : (∀ s joins, .register s joins ∈ ops → s.stop < UInt64.size - 1) →
    ∀ offset, ∀ s ∈ i.entries, s.contains offset → s.width64? = some s.width

/-- After any operations, there is one entry for each block of them, which sums up its spans, and
lookups find the first of the narrowest entries at a glyph. -/
theorem answers_performAll (ops : List Operation) : (performAll empty ops).Answers ops := by
  have htallies := tallies_performAll ops
  refine ⟨htallies.entries, ?_, ?_, ?_, ?_⟩
  · intro s joins hs
    exact ⟨if_neg (Nat.not_le.2 hs), perform_register_of_lt hs joins⟩
  · intro offset
    rw [SpanIndex.lookup_eq_none_iff]
    simp only [← Span.contains_iff, Bool.not_eq_true]
  · intro offset s
    rw [SpanIndex.lookup_eq_some_iff]
    simp only [← Span.contains_iff]
  · intro hsize offset s hs hcontains
    obtain ⟨r, joins, hregister, hstop⟩ := htallies.exists_register hs
    exact Span.width64?_of_contains hcontains (hstop ▸ hsize r joins hregister)

/-- Two spans that are joined backwards cover no glyph, and are not measured where the span behind
them is found. -/
theorem answers_performAll_backwards :
    ∃ ops, ops = [.register ⟨.literal, 5, 6, ['a']⟩ true, .register ⟨.literal, 0, 1, ['b']⟩ true,
        .closeRun, .register ⟨.literal, 0, 5, ['c']⟩ true] ∧
      (performAll empty ops).entries =
        [⟨.literal, 5, 1, ['a', 'b']⟩, ⟨.literal, 0, 5, ['c']⟩] ∧
      (performAll empty ops).lookup 6 = none ∧
      (performAll empty ops).lookup 5 = some ⟨.literal, 0, 5, ['c']⟩ ∧
      (⟨.literal, 0, 5, ['c']⟩ : Span).width64? = some 6 := by
  refine ⟨_, rfl, rfl, ?_⟩
  have h := answers_performAll [.register ⟨.literal, 5, 6, ['a']⟩ true,
    .register ⟨.literal, 0, 1, ['b']⟩ true, .closeRun, .register ⟨.literal, 0, 5, ['c']⟩ true]
  refine ⟨(h.lookup_eq_none_iff 6).2 (by decide), ?_, ?_⟩
  · refine (h.lookup_eq_some_iff 5 _).2 ⟨[⟨.literal, 5, 1, ['a', 'b']⟩], [], rfl, ?_⟩
    decide
  · refine h.width64?_eq ?_ 5 _ (List.mem_cons_of_mem _ List.mem_cons_self) rfl
    intro s joins hs
    simp only [List.mem_cons, List.not_mem_nil, or_false, Operation.register.injEq,
      reduceCtorEq, false_or] at hs
    rcases hs with ⟨rfl, -⟩ | ⟨rfl, -⟩ | ⟨rfl, -⟩ <;> decide

end SpanIndex

end RegexGloss
