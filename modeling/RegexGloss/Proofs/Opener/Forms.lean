import RegexGloss.Proofs.Opener.Grammar

/-!
# Forms of openers

An opener is read exactly if one of the forms reads it (`Opener.read?_eq_some_iff`), and its kind
tells which form it is (`Opener.Form.ofKind?`). What is read stays the same if more text is put
behind it, unless settings are closed by it (`Opener.read?_append`).
-/

namespace RegexGloss

open Text

namespace Opener

/-- In the alphabet in use too, a form reads exactly the openers that have the form. -/
theorem Form.read?_eq_some_iff {f : Form} {t : Text} {o : Opener} :
    f.read? t = some o ↔ Starts .unicode f t o := by
  rw [← readIn?_unicode, readIn?_eq_some_iff]

/-- An opener is read exactly if one of the forms reads it. -/
theorem read?_eq_some_iff (t : Text) (o : Opener) :
    read? t = some o ↔ ∃ f : Form, f.read? t = some o := by
  simp only [← readIn?_unicode, ← Form.readIn?_unicode]
  exact readIn?_eq_some_iff t o

/-! ## Kinds of openers -/

/-- The form that openers of a kind have. Plain parentheses have no opener. -/
def Form.ofKind? : GroupKind → Option Form
  | .capture => none
  | .nonCapturing => some nonCapturing
  | .named _ => some named
  | .balancing _ _ => some balancing
  | .settings _ => some settings
  | .lookaround _ _ => some lookaround
  | .nonBacktracking => some nonBacktracking
  | .conditional => some conditional

/-- The kind of an opener tells its form. -/
theorem Form.ofKind?_eq_some {f : Form} {t : Text} {o : Opener} (h : f.read? t = some o) :
    ofKind? o.kind = some f := by
  cases Form.read?_eq_some_iff.1 h with
  | fixed h => cases h <;> rfl
  | _ => rfl

/-- Only settings are read as settings. -/
theorem settings?_of_kind {t : Text} {o : Opener} {list : List Setting} (h : read? t = some o)
    (hkind : o.kind = .settings list) : settings? t = some o := by
  obtain ⟨f, hf⟩ := (read?_eq_some_iff _ _).1 h
  have hform := Form.ofKind?_eq_some hf
  rw [hkind] at hform
  obtain rfl := Option.some.inj hform
  exact hf

/-! ## More text behind an opener -/

namespace Form

variable {α : Alphabet} {f : Form} {u v : Text} {o : Opener}

/-- A text starts with the same opener if more text is put behind it, unless this closes settings
before their body. -/
theorem Starts.append (h : Starts α f u o)
    (hv : v.head? = some ')' → o.hasBody = true → ∀ list, o.kind = .settings list →
      o.width < u.length) :
    Starts α f (u ++ v) o := by
  cases h with
  | named rest hquote hname => simpa using Starts.named (rest ++ v) hquote hname
  | balancing rest hquote hfirst hsecond =>
    simpa using Starts.balancing (rest ++ v) hquote hfirst hsecond
  | bare rest hglyphs => simpa using Starts.bare (rest ++ v) hglyphs
  | bareColon rest hglyphs => simpa using Starts.bareColon (rest ++ v) hglyphs
  | @body glyphs rest hglyphs hrest =>
    -- no parenthesis follows the colon, neither before nor after
    have hhead : (rest ++ v).head? ≠ some ')' := by
      cases rest with
      | nil =>
        intro hclose
        have hlt := hv hclose rfl _ rfl
        simp at hlt
      | cons c rest => exact hrest
    simpa using Starts.body hglyphs hhead
  | fixed h => cases h <;> exact .fixed (by constructor)

/-- Settings before their body are closed by a parenthesis behind them, which leaves no body. -/
theorem Starts.append_close (h : Starts α settings u o) (hbody : o.hasBody = true)
    (hwidth : o.width = u.length) (v : Text) :
    Starts α settings (u ++ ')' :: v) ⟨o.kind, o.width + 1, false⟩ := by
  cases h with
  | bare | bareColon => cases hbody
  | @body glyphs rest hglyphs hrest =>
    -- nothing is left behind the colon
    obtain rfl : rest = [] := by
      simp only [List.length_cons, List.length_append] at hwidth
      exact List.eq_nil_of_length_eq_zero (by omega)
    simpa using Starts.bareColon v hglyphs
  | fixed h => cases h

end Form

theorem settings?_append_close {u : Text} {o : Opener} (h : settings? u = some o)
    (hbody : o.hasBody = true) (hwidth : o.width = u.length) (v : Text) :
    settings? (u ++ ')' :: v) = some ⟨o.kind, o.width + 1, false⟩ := by
  have hstarts : Form.Starts .unicode .settings u o := Form.settings?_eq_some_iff_starts.1 h
  exact Form.settings?_eq_some_iff_starts.2 (hstarts.append_close hbody hwidth v)

/-- An opener stays the same if more text is put behind it, unless this closes settings before their
body. -/
theorem read?_append {u v : Text} {o : Opener} (h : read? u = some o)
    (hv : v.head? = some ')' → o.hasBody = true → ∀ list, o.kind = .settings list →
      o.width < u.length) :
    read? (u ++ v) = some o := by
  obtain ⟨f, hf⟩ := (read?_eq_some_iff _ _).1 h
  have hstarts := (Form.read?_eq_some_iff.1 hf).append hv
  exact (read?_eq_some_iff _ _).2 ⟨f, Form.read?_eq_some_iff.2 hstarts⟩

end Opener

end RegexGloss
