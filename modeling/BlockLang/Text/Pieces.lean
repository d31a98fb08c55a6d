import BlockLang.Text.Blank

/-!
# Pieces of a text

A text is cut at every occurrence of a separating character; the pieces joined by that character are
the text again.
-/

namespace BlockLang.Text

/-- The pieces between the occurrences of `sep`, at least one. -/
def pieces (sep : Char) : Text → List Text
  | [] => [[]]
  | c :: t =>
    if c = sep then [] :: pieces sep t
    else
      match pieces sep t with
      | [] => [[c]]
      | p :: ps => (c :: p) :: ps

def join (sep : Char) (ps : List Text) : Text := [sep].intercalate ps

/-- The part of a text before the first occurrence of `sep` and the part after it. -/
def splitFirst? (sep : Char) : Text → Option (Text × Text)
  | [] => none
  | c :: t =>
    if c = sep then some ([], t) else (splitFirst? sep t).map fun (a, b) => (c :: a, b)

theorem pieces_ne_nil (sep : Char) (t : Text) : pieces sep t ≠ [] := by
  fun_cases pieces sep t <;> simp

theorem join_cons (sep : Char) (p q : Text) (ps : List Text) :
    join sep (p :: q :: ps) = p ++ sep :: join sep (q :: ps) := by
  simp [join, List.intercalate]

theorem join_pieces (sep : Char) (t : Text) : join sep (pieces sep t) = t := by
  induction t with
  | nil => rfl
  | cons c t ih =>
    cases h : pieces sep t with
    | nil => exact absurd h (pieces_ne_nil sep t)
    | cons p ps =>
      rw [h] at ih
      by_cases hc : c = sep
      · simp [pieces, hc, h, join_cons, ih]
      · cases ps <;> simp_all [pieces, join, List.intercalate]

theorem splitFirst?_eq_some {sep : Char} {t a b : Text} (h : splitFirst? sep t = some (a, b)) :
    t = a ++ sep :: b ∧ sep ∉ a := by
  induction t generalizing a with
  | nil => simp [splitFirst?] at h
  | cons c t ih =>
    by_cases hc : c = sep
    · simp_all [splitFirst?]
    · simp only [splitFirst?, hc, if_false, Option.map_eq_some_iff] at h
      obtain ⟨⟨x, y⟩, hx, hy⟩ := h
      cases hy
      have := ih hx
      simp [this.1, this.2, Ne.symm hc]

end BlockLang.Text
