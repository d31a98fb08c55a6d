import BlockLang.Text.Blank

/-!
# Likeness of texts

Two texts are alike as far as they have characters in common, at nearly the same places and in the
same order. Each character of the first text is matched with an equal one of the second, if there is
one within reach that is not matched yet. The likeness is the mean of three shares: that of the
matched characters in the first text, that in the second, and that of the matched characters that
need not be swapped to stand in the same order.
-/

namespace BlockLang

/-- How alike two texts are. -/
structure Likeness where
  left : Nat
  right : Nat
  /-- The number of characters that are matched. -/
  matched : Nat
  /-- The number of swaps that bring the matched characters of one text into the order of the
  other, half the number of places where they differ. -/
  swaps : Nat
  deriving DecidableEq, Repr

namespace Likeness

/-! ## Matching -/

/-- How far apart the places of matched characters may be. -/
def reach (t u : Text) : Nat := max t.length u.length / 2 - 1

/-- The place in `u` that is matched with the character `c` at place `i`: the first one within reach
that holds the same character and is not taken. -/
def partner? (reach : Nat) (u : Text) (taken : List Nat) (i : Nat) (c : Char) : Option Nat :=
  (List.range u.length).find? fun j =>
    u[j]? == some c && decide (i ≤ j + reach) && decide (j ≤ i + reach) && !taken.contains j

/-- The places in `u` that are matched with the characters of a text, which starts at place `i`. -/
def partners (reach : Nat) (u : Text) : List Nat → Nat → Text → List Nat
  | _, _, [] => []
  | taken, i, c :: t =>
    match partner? reach u taken i c with
    | none => partners reach u taken (i + 1) t
    | some j => j :: partners reach u (j :: taken) (i + 1) t

/-- How many of the characters of `u` at the given places differ from what stands there when the
places are put in order. -/
def misplaced (u : Text) (places : List Nat) : Nat :=
  (places.zip ((List.range u.length).filter places.contains)).countP fun (j, k) => u[j]? != u[k]?

def ofTexts (t u : Text) : Likeness :=
  let places := partners (reach t u) u [] 0 t
  ⟨t.length, u.length, places.length, misplaced u places / 2⟩

/-! ## Comparing -/

/-- The numerator of a likeness as a fraction. -/
def part (l : Likeness) : Nat :=
  l.matched * l.matched * (l.left + l.right) + (l.matched - l.swaps) * l.left * l.right

/-- The denominator of a likeness as a fraction. -/
def whole (l : Likeness) : Nat := if l.matched = 0 then 1 else 3 * l.left * l.right * l.matched

/-- Whether a likeness is at least seven tenths. -/
def isStrong (l : Likeness) : Bool := 7 * l.whole ≤ 10 * l.part

/-- Whether a likeness is smaller than another, or as large but with more swaps. -/
def isBelow (l k : Likeness) : Bool :=
  l.part * k.whole < k.part * l.whole ||
    (l.part * k.whole == k.part * l.whole && decide (k.swaps < l.swaps))

end Likeness

end BlockLang
