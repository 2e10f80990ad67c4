import RegexGloss.Proofs.Construct.Bounds
import RegexGloss.Proofs.Construct.Shift

/-!
# Constructs inside others

A construct stands among constructs or in the body of a group among them, at any depth
(`Construct.Inside`). Its tokens, its entries and its nodes are a stretch of theirs. Every entry of
constructs other than that of a choice is the one of some construct inside them as a whole
(`Construct.exists_inside_of_mem_spansAll`).
-/

namespace RegexGloss

namespace Construct

/-- A construct stands at a place among constructs that follow each other from an offset on, or in
the body of a group among them. -/
inductive Inside (c : Construct) (place : Nat) : Nat → List Construct → Prop where
  /-- The construct is one of them. -/
  | here (before : List Construct) {offset : Nat} {after : List Construct}
    (h : offset + widthAll before = place) : Inside c place offset (before ++ c :: after)
  /-- The construct is in the body of a group. -/
  | group (before : List Construct) {offset : Nat} {after body : List Construct}
    {heading : Option GroupKind} {extra : Nat}
    (h : Inside c place (offset + widthAll before + (extra + 1)) body) :
    Inside c place offset (before ++ .group heading extra body :: after)
  /-- The construct is in the condition of a conditional. -/
  | condition (before : List Construct) {offset : Nat}
    {after condition branches : List Construct}
    (h : Inside c place (offset + widthAll before + 3) condition) :
    Inside c place offset (before ++ .conditional condition branches :: after)
  /-- The construct is in the branches of a conditional. -/
  | branches (before : List Construct) {offset : Nat}
    {after condition branches : List Construct}
    (h : Inside c place (offset + widthAll before + 4 + widthAll condition) branches) :
    Inside c place offset (before ++ .conditional condition branches :: after)

namespace Inside

variable {c d : Construct} {place offset : Nat} {cs ds : List Construct}

/-- Constructs behind do not matter. -/
theorem append_right (h : Inside c place offset cs) (ds : List Construct) :
    Inside c place offset (cs ++ ds) := by
  cases h with
  | here before h =>
    rw [List.append_assoc]
    exact .here before h
  | group before h =>
    rw [List.append_assoc]
    exact .group before h
  | condition before h =>
    rw [List.append_assoc]
    exact .condition before h
  | branches before h =>
    rw [List.append_assoc]
    exact .branches before h

/-- A construct in front moves those behind it. -/
theorem cons_left (h : Inside c place (offset + d.width) cs) :
    Inside c place offset (d :: cs) := by
  have hwidth (before : List Construct) :
      offset + d.width + widthAll before = offset + widthAll (d :: before) := by
    rw [widthAll_cons, Nat.add_assoc]
  cases h with
  | here before h =>
    rw [hwidth] at h
    exact .here (d :: before) h
  | group before h =>
    rw [hwidth] at h
    exact .group (d :: before) h
  | condition before h =>
    rw [hwidth] at h
    exact .condition (d :: before) h
  | branches before h =>
    rw [hwidth] at h
    exact .branches (d :: before) h

/-- A construct lies between the first and the last glyph of those around it. -/
theorem bounds (h : Inside c place offset cs) :
    offset ≤ place ∧ place + c.width ≤ offset + widthAll cs := by
  induction h with
  | here before h =>
    rw [widthAll_append, widthAll_cons]
    omega
  | group before h ih =>
    rw [widthAll_append, widthAll_cons, width_group]
    omega
  | condition before h ih =>
    rw [widthAll_append, widthAll_cons, width_conditional]
    omega
  | branches before h ih =>
    rw [widthAll_append, widthAll_cons, width_conditional]
    omega

/-- A construct inside proper ones is proper. -/
theorem proper (h : Inside c place offset cs) (hcs : ProperAll cs) : c.Proper := by
  induction h with
  | here before h => exact ((properAll_append_iff _ _).1 hcs).2.1.1
  | group before h ih => exact ih ((properAll_append_iff _ _).1 hcs).2.1.1
  | condition before h ih => exact ih ((properAll_append_iff _ _).1 hcs).2.1.1.1
  | branches before h ih => exact ih ((properAll_append_iff _ _).1 hcs).2.1.1.2.1

/-- The tokens of a construct are a stretch of the tokens around it. -/
theorem exists_lexemesAll_eq (h : Inside c place offset cs) :
    ∃ before after, lexemesAll cs = before ++ c.lexemes ++ after ∧
      offset + (before.map Lexeme.width).sum = place := by
  -- each group around the construct adds its own tokens and those of its neighbours on both sides
  induction h with
  | @here before offset after h =>
    refine ⟨lexemesAll before, lexemesAll after, ?_, h⟩
    rw [lexemesAll_append, lexemesAll_cons, List.append_assoc]
  | @group before offset after body heading extra h ih =>
    obtain ⟨ls, ms, hbody, rfl⟩ := ih
    refine ⟨lexemesAll before ++ opening heading extra :: ls, ms ++ closing :: lexemesAll after,
      ?_, ?_⟩
    · rw [lexemesAll_append, lexemesAll_cons, lexemes, hbody]
      simp only [List.append_assoc, List.cons_append, List.nil_append]
    · rw [List.map_append, List.sum_append, List.map_cons, List.sum_cons, widthAll]
      simp only [opening, Nat.add_assoc]
  | @condition before offset after condition branches h ih =>
    obtain ⟨ls, ms, hcondition, rfl⟩ := ih
    refine ⟨lexemesAll before ++ openingCondition :: ls,
      ms ++ closing :: (lexemesAll branches ++ closing :: lexemesAll after), ?_, ?_⟩
    · rw [lexemesAll_append, lexemesAll_cons, lexemes, hcondition]
      simp only [List.append_assoc, List.cons_append, List.nil_append]
    · rw [List.map_append, List.sum_append, List.map_cons, List.sum_cons, widthAll]
      simp only [openingCondition, Nat.add_assoc]
  | @branches before offset after condition branches h ih =>
    obtain ⟨ls, ms, hbranches, rfl⟩ := ih
    refine ⟨lexemesAll before ++ openingCondition :: (lexemesAll condition ++ closing :: ls),
      ms ++ closing :: lexemesAll after, ?_, ?_⟩
    · rw [lexemesAll_append, lexemesAll_cons, lexemes, hbranches]
      simp only [List.append_assoc, List.cons_append, List.nil_append]
    · simp only [List.map_append, List.sum_append, List.map_cons, List.sum_cons, widthAll,
        openingCondition, closing]
      omega

end Inside

/-! ## The constructs of entries -/

mutual

/-- Every entry of a construct other than that of a choice is the one of a construct inside it as a
whole. -/
theorem exists_inside_of_mem_spans (o : Options) (offset : Nat) :
    (c : Construct) → ∀ s ∈ c.spans o offset, s.kind ≠ .conditional →
      ∃ d place, Inside d place offset [c] ∧ d.span? o place = some s
  | .skipped _ _, _, hs, _ => by cases hs
  | .run first more, s, hs, _ => by
    obtain rfl := List.mem_singleton.1 hs
    exact ⟨.run first more, offset, .here [] rfl, rfl⟩
  | .atom a extra, s, hs, _ => by
    obtain rfl := List.mem_singleton.1 hs
    exact ⟨.atom a extra, offset, .here [] rfl, rfl⟩
  | .bar, s, hs, _ => by
    obtain rfl := List.mem_singleton.1 hs
    exact ⟨.bar, offset, .here [] rfl, rfl⟩
  | .bare kind extra, s, hs, _ => by
    obtain rfl := List.mem_singleton.1 hs
    exact ⟨.bare kind extra, offset, .here [] rfl, rfl⟩
  | .group heading extra body, s, hs, hkind => by
    rw [spans, List.mem_append, List.mem_singleton] at hs
    rcases hs with hs | rfl
    · obtain ⟨d, place, hd, hlast⟩ := exists_inside_of_mem_spansAll o _ body s hs hkind
      exact ⟨d, place, .group [] hd, hlast⟩
    · exact ⟨.group heading extra body, offset, .here [] rfl, rfl⟩
  | .conditional condition branches, s, hs, hkind => by
    simp only [spans, List.mem_append, List.mem_cons, List.not_mem_nil, or_false] at hs
    rcases hs with (hs | hs) | rfl | rfl
    · obtain ⟨d, place, hd, hlast⟩ := exists_inside_of_mem_spansAll o _ condition s hs hkind
      exact ⟨d, place, .condition [] hd, hlast⟩
    · obtain ⟨d, place, hd, hlast⟩ := exists_inside_of_mem_spansAll o _ branches s hs hkind
      exact ⟨d, place, .branches [] hd, hlast⟩
    -- no construct as a whole has the entry of a choice
    · exact absurd (Node.kind_choose _ _) hkind
    · exact ⟨.conditional condition branches, offset, .here [] rfl, rfl⟩

/-- Every entry of constructs other than that of a choice is the one of a construct inside these as
a whole. -/
theorem exists_inside_of_mem_spansAll (o : Options) (offset : Nat) :
    (cs : List Construct) → ∀ s ∈ spansAll o offset cs, s.kind ≠ .conditional →
      ∃ d place, Inside d place offset cs ∧ d.span? o place = some s
  | [], _, hs, _ => by cases hs
  | c :: cs, s, hs, hkind => by
    rw [spansAll_cons, List.mem_append] at hs
    rcases hs with hs | hs
    · obtain ⟨d, place, hd, hlast⟩ := exists_inside_of_mem_spans o offset c s hs hkind
      exact ⟨d, place, hd.append_right cs, hlast⟩
    · obtain ⟨d, place, hd, hlast⟩ := exists_inside_of_mem_spansAll o _ cs s hs hkind
      exact ⟨d, place, hd.cons_left, hlast⟩

end

end Construct

end RegexGloss
