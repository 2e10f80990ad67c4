import RegexGloss.Reader

/-!
# Reading by descent

A pattern can also be read without cutting it into tokens first: from its place on, a reader goes
through a sequence of constructs glyph by glyph, and comes back to such a sequence inside every
group. This is how `Descent.pattern` reads.

A descent is careful. Where `Reader.advanceBy` would stop at the end of the pattern and a span would
be made to fit, a descent refuses to go on, and so it does if a construct takes up no glyph or the
pattern does not come to an end (`Refusal`).
-/

namespace RegexGloss

/-- Why a descent refuses to go on. -/
inductive Refusal where
  /-- It would go past the end of the pattern. -/
  | overrun
  /-- It would register a construct that starts where it ends, or behind. -/
  | emptySpan
  /-- It has not got further. -/
  | idle
  /-- It has come upon a token that cannot start with the glyph there. -/
  | misread
  /-- It has taken too many steps. -/
  | endless
  deriving DecidableEq, Repr

/-- What stops a descent. -/
inductive Stop where
  /-- The pattern has a fault. -/
  | fault (fault : Fault)
  /-- The descent is not carried on. -/
  | refusal (why : Refusal)
  deriving DecidableEq, Repr

/-- A part of reading, which goes on with a reader or is stopped. -/
abbrev Descent (α : Type) := EStateM Stop Reader α

namespace Descent

/-! ## Single steps -/

/-- The number of glyphs read. -/
def offset : Descent Nat := fun r => .ok r.offset r

/-- How the pattern is to be read. -/
def options : Descent Options := fun r => .ok r.options r

/-- The glyphs not yet read. -/
def remaining : Descent Text := fun r => .ok r.remaining r

/-- The next glyph, if there is one. -/
def peek : Descent (Option Char) := fun r => .ok r.peek r

/-- Whether the whole pattern has been read. -/
def atEnd : Descent Bool := fun r => .ok r.atEnd r

/-- Takes the index out. -/
def takeIndex : Descent SpanIndex := fun r => .ok r.takeIndex.1 r.takeIndex.2

/-- Stops for a reason other than a fault. -/
def refuse {α : Type} (why : Refusal) : Descent α := fun r => .error (.refusal why) r

/-- Stops at a fault and keeps its place. -/
def fail {α : Type} (f : Fault) : Descent α := fun r => .error (.fault f) (r.fail f)

/-- The next glyph. It is a fault if there is none. -/
def current : Descent Char := fun r =>
  match r.current with
  | .ok c => .ok c r
  | .error f => fail f r

/-- Goes on by so many glyphs, which have to be there. -/
def advanceBy (count : Nat) : Descent Unit := fun r =>
  if r.offset + count ≤ r.pattern.length then .ok () (r.advanceBy count) else refuse .overrun r

/-- Goes on by one glyph, which has to be there. -/
def advance : Descent Unit := advanceBy 1

/-- Ends the run of literals that the latest entry of the index may be. -/
def closeRun : Descent Unit := fun r => .ok () r.closeRun

/-- Registers a node from its start to the glyph before the next one. There has to be a glyph in
between, so that the end does not have to be moved behind the start. -/
def register (n : Node) (start : Nat) : Descent Unit := fun r =>
  if start < r.offset then
    -- the subtraction is exact then, and the maximum is its result
    match r.register (.ofNode n start (max (r.offset - 1) start)) n.isLiteral with
    | .ok r => .ok () r
    | .error _ => refuse .emptySpan r
  else
    refuse .emptySpan r

/-- Checks that a descent has got further than an offset. -/
def further (start : Nat) : Descent Unit := fun r =>
  if start < r.offset then .ok () r else refuse .idle r

/-! ## Glyphs -/

/-- Goes on by one glyph if it is the given one. -/
def accept (c : Char) : Descent Bool := do
  if (← peek) = some c then
    advance
    return true
  else
    return false

/-- Goes on by glyphs with a property as long as there are any, in so many steps. -/
def takeWhile (p : Char → Bool) : Nat → Descent Text
  | 0 => refuse .endless
  | fuel + 1 => do
    match ← peek with
    | none => return []
    | some c =>
      if p c then
        advance
        return c :: (← takeWhile p fuel)
      else
        return []

/-- Goes on by glyphs with a property as long as there are any. -/
def takeAllWhile (p : Char → Bool) : Descent Text := do
  takeWhile p ((← remaining).length + 1)

/-- Goes on by so many glyphs. -/
def take : Nat → Descent Text
  | 0 => return []
  | count + 1 => do
    let c ← current
    advance
    return c :: (← take count)

/-! ## Atoms -/

/-- Reads the members of a class and the bracket that ends it. -/
def members (negated : Bool) : Descent CharClass := do
  let read := CharClass.readMembers negated (← remaining)
  advanceBy read.2
  return read.1

/-- Reads the class that follows a `[`. -/
def charClass : Descent CharClass := do
  let negated ← accept '^'
  members negated

/-- Reads the counts of a quantifier. -/
def counts : Descent Quantifier.Counts := do
  let least ← takeAllWhile Char.isDigit
  let comma ← accept ','
  let most ← takeAllWhile Char.isDigit
  return ⟨least, comma, most⟩

/-- Reads the quantifier that follows a `{`. -/
def quantifier : Descent Quantifier := do
  let counts ← counts
  if counts.least ≠ [] ∧ (← peek) = some '}' then
    advance
    let lazy ← accept '?'
    return .bounded counts.bound lazy
  else
    advanceBy (Quantifier.strayWidth (← remaining))
    return .unterminated

/-- Reads what follows the first glyph of an escape that is no backreference. -/
def escapeAfter : Char → Descent Escape
  | 'c' => do
    let glyph ← current
    advance
    return .control glyph
  | 'u' => do return .unicode (← take 4)
  | 'x' => do return .hex (← take 2)
  | ' ' => return .space
  | c => return (Escape.shorthand? c).elim (.literal c) .shorthand

/-- Reads the escape that follows a backslash. -/
def escape : Descent Escape := do
  match Escape.backreference? (← remaining) with
  | some (name, width) =>
    advanceBy width
    return .backreference name
  | none =>
    let c ← current
    advance
    escapeAfter c

/-- Reads what follows a glyph that starts no larger construct: a `?` that makes it lazy. -/
def character (c : Char) : Descent Atom := do
  match Token.readGlyph c (← remaining) with
  | (.atom a, width) =>
    advanceBy width
    return a
  | _ => refuse .misread

/-! ## Groups -/

/-- Takes the parenthesis that closes a group which was opened at `start`. -/
def expectClose (start : Nat) : Descent Unit := do
  match ← peek with
  | some ')' => advance
  | some _ => fail ⟨.closeExpected, ← offset⟩
  | none => fail ⟨.unclosedGroup, start⟩

/-- Reads a construct, and registers it with the glyphs it takes up. -/
def spanned (x : Nat → Descent Node) : Descent Node := do
  let start ← offset
  let n ← x start
  register n start
  return n

/-- Reads what gives a group that was opened at `start` its kind, and whether it has a body. -/
def opener (start : Nat) : Descent (GroupKind × Bool) := do
  if (← peek) = some '?' then
    match Opener.read? (← remaining) with
    | some o =>
      advanceBy o.width
      return (o.kind, o.hasBody)
    | none => fail ⟨.unknownGroup, start⟩
  else
    return (Assembly.plainKind (← options), true)

/-- Reads the branches behind a condition. -/
def branches (body : Descent (List Node)) (condition : List Node) : Descent Node := do
  match Node.ofBranches condition (← body) with
  | .ok n => return n
  | .error pos => fail ⟨.surplusBar, pos⟩

/-- Reads a condition and the branches behind it. -/
def conditional (body : Descent (List Node)) : Descent Node :=
  spanned fun start => do
    advance
    closeRun
    let condition ← body
    expectClose start
    closeRun
    branches body condition

/-- Reads a group of some kind from behind its opener. -/
def enclosed (body : Descent (List Node)) (kind : GroupKind) (start : Nat) : Descent Node := do
  let nodes ← if kind = .conditional then (do return [← conditional body]) else body
  expectClose start
  return .group kind nodes

/-- Reads a group. -/
def group (body : Descent (List Node)) (start : Nat) : Descent Node := do
  advance
  closeRun
  let (kind, hasBody) ← opener start
  if hasBody then
    enclosed body kind start
  else
    return .bare kind

/-! ## Sequences -/

/-- Reads the construct that starts with a glyph. -/
def construct (body : Descent (List Node)) (c : Char) : Descent Node :=
  spanned <|
    match c with
    | '(' => group body
    | '[' => fun _ => do
      advance
      return .atom (.charClass (← charClass))
    | '\\' => fun _ => do
      advance
      return .atom (← escape).atom
    | '{' => fun _ => do
      advance
      return .atom (.quantifier (← quantifier))
    | '|' => fun start => do
      advance
      return .bar start
    | c => fun _ => do
      advance
      return .atom (← character c)

/-- Reads constructs up to a closing parenthesis or the end of the pattern, in so many steps. -/
def sequence : Nat → Descent (List Node)
  | 0 => refuse .endless
  | fuel + 1 => do
    let start ← offset
    let o ← options
    match ← peek with
    | none => return []
    | some c =>
      if o.ignoreWhitespace && Token.isSkipped c then
        -- no run of literals goes across what is skipped
        advance
        closeRun
        further start
        sequence fuel
      else if o.ignoreWhitespace && c == '#' then
        let _ ← takeAllWhile fun c => !Token.endsComment c
        closeRun
        further start
        sequence fuel
      else if c = ')' then
        return []
      else
        let n ← construct (sequence fuel) c
        further start
        return n :: (← sequence fuel)

/-- Reads the rest of a pattern in so many steps, and takes the index out. A closing parenthesis
that is left closes nothing. -/
def pattern (fuel : Nat) : Descent Explanation := do
  let tree ← sequence fuel
  if ← atEnd then
    return ⟨tree, ← takeIndex⟩
  else
    fail ⟨.surplusClose, ← offset⟩

end Descent

end RegexGloss
