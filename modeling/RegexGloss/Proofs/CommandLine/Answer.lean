import RegexGloss.CommandLine
import RegexGloss.Proofs.Fault.Cause
import RegexGloss.Proofs.Tree.Indentation

/-!
# Answers of the command

The command succeeds exactly if the pattern can be explained. It prints the explanation with line
feeds alone as line ends, and behind it what was found at the glyph that was asked for
(`Answer.Tells`). Otherwise it reports the fault and underlines it (`Answer.Reports`): the carets
stand under the glyphs that the fault points at, or behind the last glyph if the pattern ends too
early.

How arguments are read is left open. The command gives the answer to a request to all arguments in
which its reader finds this request.

Main statement: `answeredBy_runCommand`.
-/

namespace RegexGloss

open Text

/-! ## Line feeds -/

namespace Text

/-- A text in which a carriage return is put in front of each line feed. -/
def ofLineFeeds (t : Text) : Text := t.flatMap fun c => if c = '\n' then lineEnd else [c]

/-- A line without line ends of its own stays as it is, and its line end loses a glyph. -/
theorem toLineFeeds_append_lineEnd {l : Text} (h : l.Unbroken) (t : Text) :
    toLineFeeds (l ++ lineEnd ++ t) = l ++ '\n' :: toLineFeeds t := by
  induction l with
  | nil => rfl
  | cons c l ih =>
    obtain ⟨hc, hl⟩ := List.forall_mem_cons.1 h
    -- a line end starts with a carriage return, and this glyph is none
    have hcons (u : Text) : toLineFeeds (c :: u) = c :: toLineFeeds u := by
      rw [toLineFeeds]
      intro v hreturn
      exact absurd hreturn hc.1
    rw [List.cons_append, List.cons_append, hcons, ih hl, List.cons_append]

theorem ofLineFeeds_append (s t : Text) : ofLineFeeds (s ++ t) = ofLineFeeds s ++ ofLineFeeds t :=
  List.flatMap_append

theorem ofLineFeeds_of_unbroken {l : Text} (h : l.Unbroken) : ofLineFeeds l = l := by
  induction l with
  | nil => rfl
  | cons c l ih =>
    obtain ⟨hc, hl⟩ := List.forall_mem_cons.1 h
    rw [ofLineFeeds, List.flatMap_cons, if_neg hc.2]
    exact congrArg (c :: ·) (ih hl)

/-- Lines get their carriage returns back. -/
theorem ofLineFeeds_toLineFeeds_unlines {ls : List Text} (h : ∀ l ∈ ls, l.Unbroken) :
    ofLineFeeds (toLineFeeds (unlines 0 ls)) = unlines 0 ls := by
  induction ls with
  | nil => rfl
  | cons l ls ih =>
    obtain ⟨hl, hls⟩ := List.forall_mem_cons.1 h
    show ofLineFeeds (toLineFeeds (l ++ lineEnd ++ unlines 0 ls)) = l ++ lineEnd ++ unlines 0 ls
    rw [toLineFeeds_append_lineEnd hl, ofLineFeeds_append, ofLineFeeds_of_unbroken hl,
      List.append_assoc]
    exact congrArg (fun u => l ++ (lineEnd ++ u)) (ih hls)

end Text

/-- The explanation of a pattern without line ends is found again in its text with line feeds. -/
theorem Explanation.ofLineFeeds_toLineFeeds_text {pattern : Text} {o : Options} {e : Explanation}
    (hpattern : pattern.Unbroken) (h : explain pattern o = .ok e) :
    ofLineFeeds (toLineFeeds e.text) = e.text := by
  obtain ⟨ls, hls, hlines⟩ := Node.lined_renderAll (unbrokenAll_tree_of_explain hpattern h)
  -- without an indentation the text is just its lines
  have htext : e.text = unlines 0 ls := hlines 0
  rw [htext, ofLineFeeds_toLineFeeds_unlines hls]

/-! ## Constructs that are found -/

/-- A line shows what was found at a glyph: the span and its text up to the blanks at its end, or
that there is nothing. -/
inductive Text.ShowsLookup (offset : Nat) : Option Span → Text → Prop where
  /-- A construct was found. -/
  | found {s : Span} {shown blanks : Text} (htext : shown ++ blanks = s.text)
    (hblanks : ∀ c ∈ blanks, isBlank c = true) (hshown : ∀ c ∈ shown.getLast?, isBlank c = false) :
    ShowsLookup offset (some s)
      (decimal s.start ++ "..=".toList ++ decimal s.stop ++ ": ".toList ++ shown)
  /-- No construct was found. -/
  | notFound : ShowsLookup offset none ("no construct at ".toList ++ decimal offset)

/-- No blank is left at the end of a text. -/
theorem Text.isBlank_of_getLast?_trimEnd {t : Text} {c : Char} (h : c ∈ (trimEnd t).getLast?) :
    isBlank c = false := by
  rw [trimEnd, List.getLast?_reverse] at h
  have hhead := List.head?_dropWhile_not isBlank t.reverse
  rw [h] at hhead
  exact hhead

theorem Answer.exists_found_eq (offset : Nat) (found? : Option Span) :
    ∃ line, ShowsLookup offset found? line ∧ found offset found? = line ++ ['\n'] := by
  cases found? with
  | none => exact ⟨_, .notFound, rfl⟩
  | some s =>
    obtain ⟨blanks, htext, hblanks⟩ := trimEnd_append s.text
    exact ⟨_, .found htext hblanks fun c hc => isBlank_of_getLast?_trimEnd hc, rfl⟩

/-! ## Faults that are underlined -/

/-- A column is underlined in the report of a fault: the columns of the glyphs that the fault points
at, or the one behind the last glyph if the pattern ends too early. -/
def Fault.Underlines (f : Fault) (pattern : Text) (column : Nat) : Prop :=
  if f.cause = .endOfPattern then column = pattern.length
  else f.location.offset ≤ column ∧ column < f.location.offset + f.location.length

/-- Only the end of a pattern is pointed at by a stretch without glyphs. -/
theorem Fault.location_length_pos {f : Fault} (h : f.cause ≠ .endOfPattern) :
    0 < f.location.length := by
  obtain ⟨cause, pos⟩ := f
  cases cause with
  | endOfPattern => exact absurd rfl h
  | unknownGroup | unclosedGroup | closeExpected | surplusBar | surplusClose =>
    exact Nat.succ_pos _

/-- The columns that are underlined are those of the stretch, or its start if it has no glyphs. -/
theorem Fault.Shows.underlines_iff {f : Fault} {pattern : Text} (h : f.Shows pattern)
    (column : Nat) :
    f.Underlines pattern column ↔
      f.location.offset ≤ column ∧ column < f.location.offset + max f.location.length 1 := by
  unfold Underlines
  split
  -- one caret is drawn for the end of the pattern, though its stretch has no glyphs
  · rename_i hcause
    obtain ⟨cause, pos⟩ := f
    obtain rfl : cause = .endOfPattern := hcause
    have hpos : pos = pattern.length := h
    rw [location, hpos]
    show column = pattern.length ↔
      pattern.length ≤ column ∧ column < pattern.length + max 0 1
    omega
  · rename_i hcause
    rw [Nat.max_eq_left (location_length_pos hcause)]

/-- Carets behind spaces stand in the columns from the number of spaces on. -/
theorem Text.getElem?_spaces_append_carets (m n column : Nat) :
    (spaces m ++ List.replicate n '^')[column]? = some '^' ↔
      m ≤ column ∧ column < m + n := by
  rcases Nat.lt_or_ge column m with hlt | hle
  -- a space
  · rw [List.getElem?_append_left (by rwa [length_spaces]), spaces, List.getElem?_replicate,
      if_pos hlt]
    constructor
    · rintro ⟨⟩
    · intro h
      omega
  -- a caret, or nothing behind the last one
  · rw [List.getElem?_append_right (by rwa [length_spaces]), length_spaces,
      List.getElem?_replicate]
    split
    · constructor
      · intro _
        omega
      · intro _
        rfl
    · constructor
      · rintro ⟨⟩
      · intro h
        omega

theorem Text.isDigit_of_mem_decimal {n : Nat} {c : Char} (h : c ∈ decimal n) : c.isDigit = true :=
  Nat.isDigit_of_mem_toDigits (by decide) (by decide) h

/-- The message of a fault is one line. -/
theorem Fault.notMem_message (f : Fault) : '\n' ∉ f.message := by
  have hwords : '\n' ∉ f.cause.words := by
    cases f.cause <;> decide +kernel
  have hat : '\n' ∉ " at ".toList := by decide +kernel
  have hpos : '\n' ∉ decimal f.pos := by
    intro hmem
    exact absurd (isDigit_of_mem_decimal hmem) (by decide)
  rw [message, List.mem_append, List.mem_append, not_or, not_or]
  exact ⟨⟨hwords, hat⟩, hpos⟩

/-- The report of a fault has three lines: the message, the pattern, and the carets. -/
theorem Answer.splitOn_err_ofFault {pattern : Text} (hpattern : '\n' ∉ pattern) (f : Fault)
    (l : Location) :
    (ofFault pattern f l).err.splitOn '\n' =
      ["error: ".toList ++ f.message, spaces 2 ++ pattern,
        spaces 2 ++ (spaces l.offset ++ List.replicate (max l.length 1) '^'), []] := by
  have hspaces (n : Nat) : '\n' ∉ spaces n := by
    intro h
    cases List.eq_of_mem_replicate h
  have hcarets (n : Nat) : '\n' ∉ List.replicate n '^' := by
    intro h
    cases List.eq_of_mem_replicate h
  have herror : '\n' ∉ "error: ".toList := by decide +kernel
  have hlines : (ofFault pattern f l).err = ['\n'].intercalate
      ["error: ".toList ++ f.message, spaces 2 ++ pattern,
        spaces 2 ++ (spaces l.offset ++ List.replicate (max l.length 1) '^'), []] := by
    simp [ofFault, pointAt, List.intercalate]
  -- no line holds a line feed, so they are split where they were put together
  rw [hlines, List.splitOn_intercalate]
  · intro line hline
    simp only [List.mem_cons, List.not_mem_nil, or_false] at hline
    rcases hline with rfl | rfl | rfl | rfl
    · rw [List.mem_append, not_or]
      exact ⟨herror, f.notMem_message⟩
    · rw [List.mem_append, not_or]
      exact ⟨hspaces 2, hpattern⟩
    · rw [List.mem_append, List.mem_append, not_or, not_or]
      exact ⟨hspaces 2, hspaces _, hcarets _⟩
    · exact List.not_mem_nil
  · exact List.cons_ne_nil _ _

/-! ## Answers -/

/-- An answer tells an explanation. -/
structure Answer.Tells (a : Answer) (r : Request) (e : Explanation) : Prop where
  /-- Nothing is reported. -/
  err : a.err = []
  /-- Unless a glyph is looked up, the explanation is what is printed with a carriage return in
  front of each line feed, if the pattern has no line ends. -/
  text : r.pattern.Unbroken → r.lookAt = none → ofLineFeeds a.out = e.text
  /-- If a glyph is looked up, an empty line and a line on it follow what is printed otherwise. -/
  construct : ∀ offset ∈ r.lookAt, ∃ line, ShowsLookup offset (e.lookup offset) line ∧
    a.out = { r with lookAt := none : Request }.answer.out ++ '\n' :: line ++ ['\n']

/-- An answer reports a fault of a pattern. -/
structure Answer.Reports (a : Answer) (pattern : Text) (f : Fault) : Prop where
  /-- Nothing is explained. -/
  out : a.out = []
  /-- What is underlined are glyphs of the pattern, and there are some, unless it ends too early. -/
  inside : f.cause ≠ .endOfPattern →
    0 < f.location.length ∧ f.location.offset + f.location.length ≤ pattern.length
  /-- Below a line with the pattern stand carets, in just the columns that are underlined. Both
  lines have a margin of two spaces. -/
  carets : '\n' ∉ pattern → ∃ first carets,
    a.err.splitOn '\n' = [first, spaces 2 ++ pattern, spaces 2 ++ carets, []] ∧
      (∀ c ∈ carets, c = ' ' ∨ c = '^') ∧
      ∀ column, carets[column]? = some '^' ↔ f.Underlines pattern column

/-- An answer to a request tells the explanation of its pattern, or reports the fault of it. The
exit code says which. -/
structure Request.AnsweredBy (r : Request) (a : Answer) : Prop where
  /-- The exit code is zero exactly if the pattern can be explained. -/
  code_eq_zero_iff : a.code = 0 ↔ ∃ e, explain r.pattern r.options = .ok e
  /-- An explanation is told. -/
  tells : ∀ e, explain r.pattern r.options = .ok e → a.Tells r e
  /-- A fault is reported. -/
  reports : ∀ f, explain r.pattern r.options = .error f → a.Reports r.pattern f

namespace Request

variable {r : Request}

theorem answer_of_explain_eq_ok {e : Explanation} (h : explain r.pattern r.options = .ok e) :
    r.answer = .ofExplanation e r.lookAt := by
  rw [explain] at h
  rw [answer]
  dsimp only
  rw [h]

theorem answer_of_explain_eq_error {f : Fault} (h : explain r.pattern r.options = .error f) :
    r.answer = .ofFault r.pattern f f.location := by
  obtain ⟨-, reader, hread, hfault⟩ := exists_read_of_explain_eq_error h
  rw [answer, hread]
  dsimp only
  rw [hfault, Option.getD_some]

/-- A pattern that can be explained is explained. -/
theorem tells_answer {e : Explanation} (h : explain r.pattern r.options = .ok e) :
    r.answer.Tells r e := by
  rw [answer_of_explain_eq_ok h]
  refine ⟨rfl, ?_, ?_⟩
  · intro hpattern hlookAt
    rw [hlookAt, ← Explanation.ofLineFeeds_toLineFeeds_text hpattern h]
    show ofLineFeeds (toLineFeeds e.text ++ []) = _
    rw [List.append_nil]
  · intro offset hoffset
    -- the same pattern is explained where nothing is looked up
    have hplain : { r with lookAt := none : Request }.answer.out = toLineFeeds e.text := by
      rw [answer_of_explain_eq_ok (r := { r with lookAt := none }) h]
      exact List.append_nil _
    obtain ⟨line, hline, hfound⟩ := Answer.exists_found_eq offset (e.lookup offset)
    refine ⟨line, hline, ?_⟩
    rw [hplain, Option.mem_def.1 hoffset]
    show toLineFeeds e.text ++ '\n' :: Answer.found offset (e.lookup offset) = _
    rw [hfound, List.append_assoc, List.cons_append]

/-- A pattern that cannot be explained is reported. -/
theorem reports_answer {f : Fault} (h : explain r.pattern r.options = .error f) :
    r.answer.Reports r.pattern f := by
  obtain ⟨hshows, -⟩ := exists_read_of_explain_eq_error h
  rw [answer_of_explain_eq_error h]
  refine ⟨rfl, ?_, ?_⟩
  · intro hcause
    exact ⟨Fault.location_length_pos hcause, hshows.location_le⟩
  · intro hpattern
    refine ⟨_, _, Answer.splitOn_err_ofFault hpattern f f.location, ?_, ?_⟩
    · intro c hc
      exact (List.mem_append.1 hc).imp List.eq_of_mem_replicate List.eq_of_mem_replicate
    · intro column
      rw [getElem?_spaces_append_carets, hshows.underlines_iff]

/-- Every request is answered. -/
theorem answeredBy_answer (r : Request) : r.AnsweredBy r.answer := by
  refine ⟨?_, fun e => tells_answer, fun f => reports_answer⟩
  cases h : explain r.pattern r.options with
  | ok e =>
    rw [answer_of_explain_eq_ok h]
    exact ⟨fun _ => ⟨e, rfl⟩, fun _ => rfl⟩
  | error f =>
    rw [answer_of_explain_eq_error h]
    constructor
    · rintro ⟨⟩
    · rintro ⟨e, ⟨⟩⟩

end Request

/-- Every request is answered, and the command gives this answer to all arguments in which its
reader finds the pattern, the options and the offset of the request. -/
theorem answeredBy_runCommand (readArgs : List Text → Except Answer Arguments) (r : Request) :
    r.AnsweredBy r.answer ∧
      ∀ args, readArgs args = .ok
          { pattern := some r.pattern
            ignoreWhitespace := r.options.ignoreWhitespace
            explicitCapture := r.options.explicitCapture
            lookAt := r.lookAt } →
        runCommand readArgs args = r.answer := by
  refine ⟨r.answeredBy_answer, ?_⟩
  intro args hread
  rw [runCommand, hread]
  rfl

/-- A group at which a glyph is looked up, and a pattern that looks like an option and has a
parenthesis that is not closed. -/
theorem answeredBy_runCommand_group :
    let lookingUp := ["-x".toList, "a(b)".toList, "--at=2".toList]
    let unclosed := ["-n".toList, "--".toList, "-n(".toList]
    let readArgs (args : List Text) : Except Answer Arguments :=
      if args = lookingUp then .ok ⟨some "a(b)".toList, true, false, some 2⟩
      else if args = unclosed then .ok ⟨some "-n(".toList, false, true, none⟩
      else .error { code := 2 }
    runCommand readArgs lookingUp =
        { code := 0, out := "a\nCapture\n  b\nEnd Capture\n\n2..=2: b\n".toList } ∧
      runCommand readArgs unclosed =
        { code := 1
          err := "error: missing ')' for group opened at 2\n  -n(\n    ^\n".toList } := by
  intro lookingUp unclosed readArgs
  have hlookingUp := (answeredBy_runCommand readArgs ⟨"a(b)".toList, ⟨true, false⟩, some 2⟩).2
    lookingUp (if_pos rfl)
  have hunclosed := (answeredBy_runCommand readArgs ⟨"-n(".toList, ⟨false, true⟩, none⟩).2
    unclosed ((if_neg (by decide +kernel)).trans (if_pos rfl))
  rw [hlookingUp, hunclosed]
  decide +kernel

end RegexGloss
