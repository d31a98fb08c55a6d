import BlockLang.Proofs.Text.Trimming
import BlockLang.Text.Lines
import BlockLang.Text.Pieces
import Mathlib.Data.List.Forall2

/-!
# Lines

What a line can hold, how lines differ from the pieces between line feeds, what lines a text has that
was written line by line, and what the lines at the end of a text are that do not count.
-/

namespace BlockLang.Text

theorem lineFeed_not_mem_of_mem_lines {l t : Text} (h : l ∈ lines t) : '\n' ∉ l := by
  fun_induction lines t generalizing l with
  | case1 => cases h
  | case2 t ih | case3 t ih =>
      rcases List.mem_cons.mp h with rfl | h
      · simp
      · exact ih h
  | case4 c t hc hr hnil ih =>
      rcases List.mem_singleton.mp h with rfl
      simpa using Ne.symm hc
  | case5 c t hc hr k ks hks ih =>
      rw [hks] at ih
      rcases List.mem_cons.mp h with rfl | h
      · exact List.not_mem_cons_of_ne_of_not_mem (Ne.symm hc) (ih (List.mem_cons_self ..))
      · exact ih (List.mem_cons_of_mem _ h)

/-- The ends of lines are blank, so that a text is blank exactly if all its lines are. -/
theorem isBlankText_iff_lines (t : Text) :
    isBlankText t = true ↔ ∀ l ∈ lines t, isBlankText l = true := by
  fun_induction lines t with
  | case1 => simp [isBlankText]
  | case2 t ih | case3 t ih =>
      rw [List.forall_mem_cons, ← ih]
      simp [isBlankText, isBlank]
  | case4 c t hc hr hnil ih =>
      rw [hnil] at ih
      have ht : isBlankText t = true := ih.mpr (by simp)
      simpa [isBlankText] using fun _ => by simpa [isBlankText] using ht
  | case5 c t hc hr k ks hks ih =>
      rw [hks, List.forall_mem_cons] at ih
      rw [List.forall_mem_cons]
      simp only [isBlankText, List.all_cons, Bool.and_eq_true] at ih ⊢
      rw [ih, and_assoc]

/-- The lines together are no longer than the text. -/
theorem length_flatten_lines_le (t : Text) : (lines t).flatten.length ≤ t.length := by
  fun_induction lines t with
  | case1 => exact Nat.le_refl _
  | case2 t ih | case3 t ih =>
      simp only [List.flatten_cons, List.nil_append, List.length_cons]
      omega
  | case4 c t hc hr hnil ih => simp
  | case5 c t hc hr k ks hks ih =>
      rw [hks] at ih
      exact Nat.succ_le_succ ih

/-! ## Line feeds -/

theorem lines_eq_nil_iff {t : Text} : lines t = [] ↔ t = [] :=
  ⟨fun h => Decidable.byContradiction fun ht => lines_ne_nil ht h, fun h => by rw [h, lines]⟩

/-- The lines of a text are its pieces between line feeds, but for a carriage return at their ends
and an empty piece behind the last line feed. -/
theorem exists_pieces_eq (t : Text) : ∃ ps qs, pieces '\n' t = ps ++ qs ∧ (∀ q ∈ qs, q = []) ∧
    List.Forall₂ (fun l p => p = l ∨ p = l ++ ['\r']) (lines t) ps := by
  fun_induction lines t with
  | case1 => exact ⟨[], [[]], rfl, by simp, .nil⟩
  | case2 t ih =>
      obtain ⟨ps, qs, hpieces, hqs, hps⟩ := ih
      exact ⟨[] :: ps, qs, by simp [pieces, hpieces], hqs, .cons (.inl rfl) hps⟩
  | case3 t ih =>
      obtain ⟨ps, qs, hpieces, hqs, hps⟩ := ih
      exact ⟨['\r'] :: ps, qs, by simp [pieces, hpieces], hqs, .cons (.inr rfl) hps⟩
  | case4 c t hc hr hnil ih =>
      have hc : c ≠ '\n' := fun e => hc e
      rw [lines_eq_nil_iff] at hnil
      subst t
      exact ⟨[[c]], [], by simp [pieces, hc], by simp, .cons (.inl rfl) .nil⟩
  | case5 c t hc hr l ls hls ih =>
      have hc : c ≠ '\n' := fun e => hc e
      obtain ⟨ps, qs, hpieces, hqs, hps⟩ := ih
      rw [hls] at hps
      cases hps with
      | @cons _ p _ ps hp hps =>
          refine ⟨(c :: p) :: ps, qs, by simp [pieces, hc, hpieces], hqs, .cons ?_ hps⟩
          rcases hp with rfl | rfl <;> simp

/-- A function of texts that passes over a carriage return at the end has the same values on the
pieces between line feeds as on the lines. -/
theorem exists_map_pieces {β : Type} {f : Text → β} (hr : ∀ l, f (l ++ ['\r']) = f l) (t : Text) :
    ∃ k, (pieces '\n' t).map f = (lines t ++ List.replicate k []).map f := by
  obtain ⟨ps, qs, hpieces, hqs, hps⟩ := exists_pieces_eq t
  have hmap : ps.map f = (lines t).map f := by
    generalize lines t = ls at hps
    clear hpieces
    induction hps with
    | nil => rfl
    | cons hp _ ih => rcases hp with rfl | rfl <;> simp [hr, ih]
  exact ⟨qs.length, by rw [hpieces, List.map_append, List.map_append, hmap,
    ← List.eq_replicate_iff.mpr ⟨rfl, hqs⟩]⟩

/-! ## Lines that were written -/

/-- A line that was written is read back, but for a carriage return at its end. -/
theorem exists_lines_append {l : Text} (h : '\n' ∉ l) (t : Text) :
    ∃ k, (l = k ∨ l = k ++ ['\r']) ∧ lines (l ++ '\n' :: t) = k :: lines t := by
  induction l with
  | nil => exact ⟨[], .inl rfl, by rw [List.nil_append, lines]⟩
  | cons c l ih =>
      have hc : c ≠ '\n' := fun e => h (by simp [e])
      obtain ⟨k, hk, hlines⟩ := ih fun hm => h (by simp [hm])
      by_cases hr : c = '\r' ∧ l = []
      · obtain ⟨rfl, rfl⟩ := hr
        exact ⟨[], .inr rfl, by rw [List.singleton_append, lines]⟩
      · refine ⟨c :: k, by rcases hk with rfl | rfl <;> simp, ?_⟩
        rw [List.cons_append, lines, hlines]
        · exact fun e => hc e
        · intro t' hr' hl
          cases l with
          | nil => exact hr ⟨hr', rfl⟩
          | cons d l => exact h (by cases hl; simp)

/-! ## Blank lines at the end -/

theorem exists_dropBlankEnd_append (ls : List Text) :
    ∃ bs, ls = dropBlankEnd ls ++ bs ∧ ∀ b ∈ bs, isBlankText b = true := by
  induction ls with
  | nil => exact ⟨[], rfl, by simp⟩
  | cons l ls ih =>
      obtain ⟨bs, hbs, hblank⟩ := ih
      rw [dropBlankEnd]
      split
      · rename_i hnil
        rw [hnil, List.nil_append] at hbs
        split
        · rename_i hl
          exact ⟨l :: ls, rfl, by simpa [hl, hbs] using hblank⟩
        · exact ⟨ls, rfl, hbs ▸ hblank⟩
      · rename_i k ks hks
        exact ⟨bs, by rw [hks] at hbs; simp [← hbs], hblank⟩

/-- The number of the last line that is not blank; it is zero if there is none. -/
structure LastVisible (ls : List Text) (n : Nat) : Prop where
  visible : n ≠ 0 → ∃ l, ls[n - 1]? = some l ∧ isBlankText l = false
  blank : ∀ l ∈ ls.drop n, isBlankText l = true

theorem lastVisible_dropBlankEnd (ls : List Text) : LastVisible ls (dropBlankEnd ls).length := by
  induction ls with
  | nil => exact ⟨by simp [dropBlankEnd], by simp⟩
  | cons l ls ih =>
      rw [dropBlankEnd]
      split
      · rename_i hnil
        rw [hnil] at ih
        cases hl : isBlankText l with
        | true => exact ⟨by simp, by simpa [hl] using ih.blank⟩
        | false => exact ⟨fun _ => ⟨l, rfl, hl⟩, ih.blank⟩
      · rename_i k ks hks
        rw [hks] at ih
        exact ⟨fun _ => ih.visible (by simp), ih.blank⟩

theorem dropBlankEnd_of_blank {bs : List Text} (h : ∀ b ∈ bs, isBlankText b = true) :
    dropBlankEnd bs = [] := by
  induction bs with
  | nil => rfl
  | cons b bs ih =>
      rw [List.forall_mem_cons] at h
      simp [dropBlankEnd, ih h.2, h.1]

theorem dropBlankEnd_append_of_blank (ls : List Text) {bs : List Text}
    (h : ∀ b ∈ bs, isBlankText b = true) : dropBlankEnd (ls ++ bs) = dropBlankEnd ls := by
  induction ls with
  | nil => exact dropBlankEnd_of_blank h
  | cons l ls ih => simp only [List.cons_append, dropBlankEnd, ih]

/-- How many lines remain depends on nothing but which lines are blank. -/
theorem length_dropBlankEnd_congr {ls ks : List Text}
    (h : ls.map isBlankText = ks.map isBlankText) :
    (dropBlankEnd ls).length = (dropBlankEnd ks).length := by
  induction ls generalizing ks with
  | nil =>
      rw [List.map_eq_nil_iff.mp h.symm]
  | cons l ls ih =>
      cases ks with
      | nil => cases h
      | cons k ks =>
          simp only [List.map_cons, List.cons.injEq] at h
          have hlength := ih h.2
          rw [dropBlankEnd, dropBlankEnd, h.1]
          cases hls : dropBlankEnd ls <;> cases hks : dropBlankEnd ks <;> simp_all
          split <;> rfl

end BlockLang.Text
