import RegexGloss.Proofs.Construct.Assembly
import RegexGloss.Proofs.Construct.Spans
import RegexGloss.Reader

/-!
# Explanations of constructs

A pattern can be explained exactly if its tokens write proper constructs (`Construct.Forms`), and
its explanation is theirs (`explain_eq_ok_iff`). All that is proved about explanations starts from
this: the tree, the index and the length of a pattern are read off its constructs.
-/

namespace RegexGloss

namespace Construct

/-- The explanation of constructs that make up a whole pattern. -/
def explanation (o : Options) (cs : List Construct) : Explanation where
  tree := nodesAll o 0 cs
  index := SpanIndex.empty.recordAll (marksAll o 0 cs)

/-- Constructs make up a pattern: its tokens are theirs, and they are proper. -/
structure Forms (cs : List Construct) (o : Options) (pattern : Text) : Prop where
  /-- The constructs are proper. -/
  proper : ProperAll cs
  /-- The pattern is written with the tokens of the constructs. -/
  lexemesAll_eq : lexemesAll cs = Lexeme.lex o.ignoreWhitespace pattern

/-- Constructs take up the whole pattern that they make up. -/
theorem Forms.widthAll_eq {cs : List Construct} {o : Options} {pattern : Text}
    (h : Forms cs o pattern) : widthAll cs = pattern.length := by
  rw [widthAll, h.lexemesAll_eq, Lexeme.sum_width_lex]

theorem entries_explanation (o : Options) {cs : List Construct} (h : ProperAll cs) :
    (explanation o cs).index.entries = spansAll o 0 cs :=
  SpanIndex.entries_recordAll_marksAll o 0 h

theorem runOpen_explanation (o : Options) {cs : List Construct} (h : ProperAll cs) :
    (explanation o cs).index.runOpen = leavesOpen false cs := by
  rw [explanation, SpanIndex.recordAll_marksAll o 0 cs h .empty nofun]
  rfl

/-! ## Single constructs -/

/-- A pattern with the tokens of a proper construct is made up of that construct. -/
theorem forms_singleton {c : Construct} {o : Options} {pattern : Text} (hc : c.Proper)
    (hlex : Lexeme.lex o.ignoreWhitespace pattern = c.lexemes) : Forms [c] o pattern := by
  refine ⟨properAll_singleton hc, ?_⟩
  rw [hlex, lexemesAll_cons, lexemesAll_nil, List.append_nil]

theorem tree_explanation_singleton (o : Options) (c : Construct) :
    (explanation o [c]).tree = c.nodes o 0 :=
  List.append_nil _

theorem entries_explanation_singleton (o : Options) {c : Construct} (hc : c.Proper) :
    (explanation o [c]).index.entries = c.spans o 0 := by
  rw [entries_explanation o (properAll_singleton hc), spansAll_cons, spansAll_nil, List.append_nil]

end Construct

open Construct

/-- Reading the tokens of a pattern succeeds exactly if constructs make it up. -/
theorem assemble_lex_eq_ok_iff {pattern : Text} {o : Options} {a : Assembly} :
    Assembly.assemble o 0 (Lexeme.lex o.ignoreWhitespace pattern) = .ok a ↔
      ∃ cs, Forms cs o pattern ∧ Assembly.extend o { offset := 0 } cs = a := by
  rw [Assembly.assemble_eq_ok_iff fun _ => Lexeme.shaped_of_mem_lex]
  constructor
  · rintro ⟨cs, hcs, hlexemes, rfl⟩
    exact ⟨cs, ⟨hcs, hlexemes⟩, rfl⟩
  · rintro ⟨cs, ⟨hcs, hlexemes⟩, rfl⟩
    exact ⟨cs, hcs, hlexemes, rfl⟩

/-- An explanation is that of the constructs which make up the pattern. -/
theorem explain_eq_ok_iff {pattern : Text} {o : Options} {e : Explanation} :
    explain pattern o = .ok e ↔ ∃ cs, Forms cs o pattern ∧ explanation o cs = e := by
  have hexplanation (cs : List Construct) :
      (⟨(Assembly.extend o { offset := 0 } cs).tree,
        SpanIndex.empty.recordAll (Assembly.extend o { offset := 0 } cs).marks⟩ : Explanation) =
      explanation o cs := by
    simp [Assembly.extend, Assembly.tree, explanation]
  rw [explain, Reader.read]
  simp only [Reader.remaining, List.drop_zero]
  cases h : Assembly.assemble o 0 (Lexeme.lex o.ignoreWhitespace pattern) with
  | error halt =>
    simp only [reduceCtorEq, false_iff]
    rintro ⟨cs, hcs, -⟩
    rw [assemble_lex_eq_ok_iff.2 ⟨cs, hcs, rfl⟩] at h
    cases h
  | ok a =>
    obtain ⟨cs, hcs, rfl⟩ := assemble_lex_eq_ok_iff.1 h
    simp only [hexplanation, Except.ok.injEq]
    constructor
    · rintro rfl
      exact ⟨cs, hcs, rfl⟩
    · rintro ⟨ds, hds, rfl⟩
      -- the same tokens lead to the same assembly, whatever constructs they are grouped into
      have hsame := assemble_lex_eq_ok_iff.2 ⟨ds, hds, rfl⟩
      rw [h] at hsame
      rw [← hexplanation cs, Except.ok.inj hsame, hexplanation]

end RegexGloss
