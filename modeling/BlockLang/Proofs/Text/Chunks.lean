import BlockLang.Text.Blank

/-!
# Chunks of a text

A text consists of chunks without blank characters, with blank characters around and between them.
However a text is cut at blank characters, its chunks are those of its parts.
-/

namespace BlockLang.Text

/-- The longest parts of a text that hold no blank character. -/
def chunks (t : Text) : List Text := (t.splitOnP isBlank).filter (· ≠ [])

theorem chunks_of_visible {x : Text} (hx : ∀ c ∈ x, isBlank c = false) :
    chunks x = if x = [] then [] else [x] := by
  rw [chunks, List.splitOnP_eq_singleton hx]
  by_cases h : x = [] <;> simp [h]

/-- A blank character belongs to no chunk and parts those around it. -/
theorem chunks_append_cons {c : Char} (hc : isBlank c = true) (t u : Text) :
    chunks (t ++ c :: u) = chunks t ++ chunks u := by
  rw [chunks, List.splitOnP_append_cons t u hc, List.filter_append]
  rfl

/-- A reading that adds up over every blank character adds up over the chunks. -/
theorem eq_flatMap_chunks {β : Type} {f : Text → List β} (hnil : f [] = [])
    (hcut : ∀ t c u, isBlank c = true → f (t ++ c :: u) = f t ++ f u) (t : Text) :
    f t = (chunks t).flatMap f := by
  -- the part of the first chunk that was read is put in front
  suffices h : ∀ x : Text, (∀ c ∈ x, isBlank c = false) → f (x ++ t) = (chunks (x ++ t)).flatMap f
    from h [] (by simp)
  have hvisible : ∀ x : Text, (∀ c ∈ x, isBlank c = false) → f x = (chunks x).flatMap f := by
    intro x hx
    rw [chunks_of_visible hx]
    by_cases h : x = [] <;> simp [h, hnil]
  induction t with
  | nil =>
      intro x hx
      rw [List.append_nil]
      exact hvisible x hx
  | cons c t ih =>
      intro x hx
      cases hc : isBlank c with
      | true =>
          have hrest : f t = (chunks t).flatMap f := ih [] (by simp)
          rw [hcut x c t hc, chunks_append_cons hc, List.flatMap_append, ← hrest, hvisible x hx]
      | false =>
          have hlonger := ih (x ++ [c]) (by simpa [or_imp, forall_and, hc] using hx)
          rwa [List.append_assoc] at hlonger

end BlockLang.Text
