import BlockLang.Text.Pieces

/-!
# Pieces of a longer text

The pieces of two texts with a separator between them are those of the one and those of the other.
-/

namespace BlockLang.Text

theorem pieces_of_not_mem {sep : Char} {t : Text} (h : sep ∉ t) : pieces sep t = [t] := by
  induction t with
  | nil => rfl
  | cons c t ih =>
      have hc : c ≠ sep := fun e => h (by simp [e])
      have ht : sep ∉ t := fun hm => h (by simp [hm])
      simp [pieces, hc, ih ht]

theorem pieces_append_cons (sep : Char) (t u : Text) :
    pieces sep (t ++ sep :: u) = pieces sep t ++ pieces sep u := by
  induction t with
  | nil => simp [pieces]
  | cons c t ih =>
      cases h : pieces sep t with
      | nil => exact absurd h (pieces_ne_nil sep t)
      | cons p ps =>
          rw [h] at ih
          by_cases hc : c = sep
          · simp [pieces, hc, ih, h]
          · simp [pieces, hc, ih, h]

theorem mem_join {sep c : Char} {ps : List Text} (h : c ∈ join sep ps) :
    c = sep ∨ ∃ p ∈ ps, c ∈ p := by
  induction ps with
  | nil => simp [join] at h
  | cons p ps ih =>
      cases ps with
      | nil => exact .inr ⟨p, by simp, by simpa [join] using h⟩
      | cons q ps =>
          rw [join_cons, List.mem_append, List.mem_cons] at h
          rcases h with h | h | h
          · exact .inr ⟨p, by simp, h⟩
          · exact .inl h
          · obtain hsep | ⟨r, hr, hc⟩ := ih h
            · exact .inl hsep
            · exact .inr ⟨r, List.mem_cons_of_mem _ hr, hc⟩

/-- A reading that adds up over a separator adds up over the pieces. -/
theorem flatMap_pieces {β : Type} {f : Text → List β} {sep : Char} (hnil : f [] = [])
    (hcut : ∀ t u, f (t ++ sep :: u) = f t ++ f u) (t : Text) : (pieces sep t).flatMap f = f t := by
  have hjoin : ∀ ps, f (join sep ps) = ps.flatMap f := by
    intro ps
    induction ps with
    | nil => exact hnil
    | cons p ps ih =>
        cases ps with
        | nil => simp [join]
        | cons q ps => rw [join_cons, hcut, ih, ← List.flatMap_cons]
  rw [← hjoin, join_pieces]

theorem splitFirst?_append {sep : Char} {t : Text} (h : sep ∉ t) (u : Text) :
    splitFirst? sep (t ++ sep :: u) = some (t, u) := by
  induction t with
  | nil => simp [splitFirst?]
  | cons c t ih =>
      have hc : c ≠ sep := fun e => h (by simp [e])
      have ht : sep ∉ t := fun hm => h (by simp [hm])
      simp [splitFirst?, hc, ih ht]

end BlockLang.Text
