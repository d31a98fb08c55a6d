import BlockLang.Text.Blank

/-!
# Trimming

Blank characters in front of a text and at its end are dropped, and nothing else is.
-/

namespace BlockLang.Text

/-- The text is not empty and holds no blank character. -/
def IsVisible (x : Text) : Prop := x ≠ [] ∧ ∀ c ∈ x, isBlank c = false

/-- Only the characters of the text are looked at, not all there are. -/
instance (x : Text) : Decidable (IsVisible x) :=
  decidable_of_iff (x ≠ [] ∧ x.all (fun c => !isBlank c) = true) (by simp [IsVisible])

theorem isBlankText_append (t u : Text) :
    isBlankText (t ++ u) = (isBlankText t && isBlankText u) := by
  simp [isBlankText]

/-! ## In front -/

theorem trimStart_append_of_blank {g : Text} (hg : isBlankText g = true) (t : Text) :
    trimStart (g ++ t) = trimStart t := by
  induction g with
  | nil => rfl
  | cons c g ih =>
      simp only [isBlankText, List.all_cons, Bool.and_eq_true] at hg
      rw [List.cons_append, trimStart_cons_blank _ hg.1]
      exact ih hg.2

theorem trimStart_of_blank {t : Text} (h : isBlankText t = true) : trimStart t = [] := by
  simpa [trimStart] using trimStart_append_of_blank h []

theorem trimStart_of_head {t : Text} (h : ∀ c ∈ t.head?, isBlank c = false) :
    trimStart t = t := by
  cases t with
  | nil => rfl
  | cons c t => exact trimStart_cons_visible t (h c rfl)

theorem trimStart_append_of_visible {x : Text} (hx : IsVisible x) (t : Text) :
    trimStart (x ++ t) = x ++ t := by
  obtain ⟨hne, hx⟩ := hx
  cases x with
  | nil => exact absurd rfl hne
  | cons c x => exact trimStart_cons_visible _ (hx c (by simp))

theorem trimStart_trimStart (t : Text) : trimStart (trimStart t) = trimStart t := by
  induction t with
  | nil => rfl
  | cons c t ih =>
      cases hc : isBlank c with
      | true => rw [trimStart_cons_blank t hc, ih]
      | false => rw [trimStart_cons_visible t hc, trimStart_cons_visible t hc]

theorem isBlank_of_mem_head?_trimStart {t : Text} {c : Char} (h : c ∈ (trimStart t).head?) :
    isBlank c = false := by
  have hhead := List.head?_dropWhile_not isBlank t
  rw [show t.dropWhile isBlank = trimStart t from rfl, Option.mem_def.mp h] at hhead
  exact hhead

/-! ## At the end -/

theorem trimEnd_append_visible {c : Char} (hc : isBlank c = false) (t : Text) :
    trimEnd (t ++ [c]) = t ++ [c] := by
  induction t with
  | nil => simp [trimEnd, hc]
  | cons d t ih =>
      rw [List.cons_append, trimEnd, ih]
      cases t <;> rfl

theorem trimEnd_prefix_self (t : Text) : trimEnd t <+: t := by
  induction t with
  | nil => exact List.prefix_refl []
  | cons c t ih =>
      rw [trimEnd]
      split
      · split
        · exact List.nil_prefix
        · exact List.cons_prefix_cons.mpr ⟨rfl, List.nil_prefix⟩
      · rename_i d u hu
        rw [← hu]
        exact List.cons_prefix_cons.mpr ⟨rfl, ih⟩

/-! ## On both sides -/

theorem isBlank_of_mem_head?_trim {t : Text} {c : Char} (h : c ∈ (trim t).head?) :
    isBlank c = false := by
  obtain ⟨u, hu⟩ := List.head?_eq_some_iff.mp h
  obtain ⟨v, hv⟩ := trimEnd_prefix_self (trimStart t)
  apply isBlank_of_mem_head?_trimStart (t := t)
  rw [← hv, ← trim, hu]
  rfl

theorem mem_of_mem_trim {t : Text} {c : Char} (h : c ∈ trim t) : c ∈ t :=
  (List.dropWhile_suffix isBlank).mem ((trimEnd_prefix_self _).mem h)

end BlockLang.Text
