import BlockLang.Text.Lines

/-!
# Source cursors

A cursor recovers the lines of lexemes from the source text: each lexeme is looked for at the start
of what is left of the current line, and then at the start of the lines that follow. What a line
holds after its last match is given up when the search moves on.
-/

namespace BlockLang

structure Cursor where
  /-- The lines that have not been looked at. -/
  pending : List Text
  /-- What is left of the current line; blank characters in front are dropped. -/
  rest : Text
  /-- How many lines have been looked at. -/
  lineCount : Nat
  deriving DecidableEq, Repr

/-- A lexeme that the source text does not have where it should be. -/
structure Mismatch where
  line : Nat
  expected : Text
  remaining : Text
  deriving DecidableEq, Repr

namespace Cursor

def ofSource (source : Text) : Cursor := ⟨Text.lines source, [], 0⟩

/-- The number of the current line; before the first line it is 1. -/
def line (c : Cursor) : Nat := max 1 c.lineCount

/-- Moves on to the first line whose text starts with `x`, or to the last line if there is none. -/
def settleFrom (x : Text) : (pending : List Text) → (rest : Text) → (lineCount : Nat) → Cursor
  | [], rest, n => ⟨[], rest, n⟩
  | l :: ls, rest, n =>
    if x.isPrefixOf rest then ⟨l :: ls, rest, n⟩ else settleFrom x ls (Text.trimStart l) (n + 1)

/-- Moves the cursor to where `x` is, or to the last line if it is nowhere. -/
def settle (c : Cursor) (x : Text) : Cursor := settleFrom x c.pending c.rest c.lineCount

/-- Moves the cursor past the next occurrence of `x`. -/
def seek (c : Cursor) (x : Text) : Except Mismatch Cursor :=
  let d := c.settle x
  if x.isPrefixOf d.rest then
    .ok { d with rest := Text.trimStart (d.rest.drop x.length) }
  else
    .error ⟨d.line, x, d.rest⟩

/-- Seeks texts one after another, and tells for each the line of the match or why there is none. A
search that fails leaves the cursor on the last line. -/
def seekAll : Cursor → List Text → List (Except Mismatch Nat)
  | _, [] => []
  | c, x :: xs =>
    match c.seek x with
    | .ok d => .ok d.line :: seekAll d xs
    | .error m => .error m :: seekAll (c.settle x) xs

/-! ## Settling -/

theorem settle_of_starts {c : Cursor} {x : Text} (h : x.isPrefixOf c.rest = true) :
    c.settle x = c := by
  cases c with
  | mk pending rest n => cases pending <;> simp_all [settle, settleFrom]

theorem settle_next {x rest l : Text} {ls : List Text} {n : Nat}
    (h : ¬ x.isPrefixOf rest = true) :
    settle ⟨l :: ls, rest, n⟩ x = settle ⟨ls, Text.trimStart l, n + 1⟩ x :=
  if_neg h

/-- A cursor settles where the text is, unless no line is left. -/
theorem settleFrom_starts_or_done (x : Text) (ls : List Text) (rest : Text) (n : Nat) :
    x.isPrefixOf (settleFrom x ls rest n).rest = true ∨ (settleFrom x ls rest n).pending = [] := by
  induction ls generalizing rest n with
  | nil => exact .inr rfl
  | cons l ls ih =>
    by_cases h : x.isPrefixOf rest = true
    · exact .inl (by simp [settleFrom, h])
    · simpa [settleFrom, h] using ih (Text.trimStart l) (n + 1)

end Cursor

end BlockLang
