/-!
# Texts and blank characters

A text is a list of characters. A character is blank when it has the Unicode property White_Space;
a text is trimmed by dropping the blank characters at its ends.
-/

namespace BlockLang

/-- A text, as the list of its characters. -/
abbrev Text := List Char

/-- The blank characters: the 25 code points that Unicode gives the property White_Space. -/
def isBlank (c : Char) : Bool :=
  let n := c.toNat
  (0x09 ≤ n && n ≤ 0x0D) || n == 0x20 || n == 0x85 || n == 0xA0 || n == 0x1680 ||
    (0x2000 ≤ n && n ≤ 0x200A) || n == 0x2028 || n == 0x2029 || n == 0x202F || n == 0x205F ||
    n == 0x3000

namespace Text

def trimStart (t : Text) : Text := t.dropWhile isBlank

def trimEnd : Text → Text
  | [] => []
  | c :: t =>
    match trimEnd t with
    | [] => if isBlank c then [] else [c]
    | d :: u => c :: d :: u

def trim (t : Text) : Text := trimEnd (trimStart t)

/-- A text is blank when all its characters are, so that nothing is left of it when it is trimmed.
-/
def isBlankText (t : Text) : Bool := t.all isBlank

end Text

/-! ## Trimming -/

theorem Text.trimStart_cons_blank {c : Char} (t : Text) (h : isBlank c = true) :
    Text.trimStart (c :: t) = Text.trimStart t := by
  simp [Text.trimStart, h]

theorem Text.trimStart_cons_visible {c : Char} (t : Text) (h : isBlank c = false) :
    Text.trimStart (c :: t) = c :: t := by
  simp [Text.trimStart, h]

end BlockLang
