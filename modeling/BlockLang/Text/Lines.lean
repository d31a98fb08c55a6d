import BlockLang.Text.Blank

/-!
# Lines of a text

A line ends at a line feed, and a carriage return directly before that line feed belongs to the end
and not to the line. A carriage return anywhere else is an ordinary character. The text after the
last line feed is a line unless it is empty.
-/

namespace BlockLang.Text

/-- The lines of a text, without their ends. -/
def lines : Text → List Text
  | [] => []
  | '\n' :: t => [] :: lines t
  | '\r' :: '\n' :: t => [] :: lines t
  | c :: t =>
    match lines t with
    | [] => [[c]]
    | l :: ls => (c :: l) :: ls

/-- Writes each line with a line feed after it. -/
def unlines (ls : List Text) : Text := ls.flatMap (· ++ ['\n'])

/-- Drops the blank lines at the end. -/
def dropBlankEnd : List Text → List Text
  | [] => []
  | l :: ls =>
    match dropBlankEnd ls with
    | [] => if isBlankText l then [] else [l]
    | k :: ks => l :: k :: ks

theorem lines_ne_nil {t : Text} (h : t ≠ []) : lines t ≠ [] := by
  fun_cases lines t with
  | case1 => exact absurd rfl h
  | case2 | case3 => simp
  | case4 => simp
  | case5 => simp

theorem lines_append_lineFeed {l : Text} (t : Text) (hn : '\n' ∉ l) (hr : l.getLast? ≠ some '\r') :
    lines (l ++ '\n' :: t) = l :: lines t := by
  induction l with
  | nil => rw [List.nil_append, lines]
  | cons c l ih =>
    have hc : c ≠ '\n' := fun e => hn (by simp [e])
    cases l with
    | nil =>
      have hc' : c ≠ '\r' := fun e => hr (by simp [e])
      rw [List.singleton_append, lines] <;> simp_all [lines]
    | cons d l =>
      have hd : d ≠ '\n' := fun e => hn (by simp [e])
      have := ih (fun hm => hn (by simp [hm])) (by simpa using hr)
      rw [List.cons_append, lines, this] <;> simp_all

/-- The lines of a text that was written line by line are those lines, as long as none of them
holds a line feed or ends in a carriage return. -/
theorem lines_unlines {ls : List Text} (h : ∀ l ∈ ls, '\n' ∉ l ∧ l.getLast? ≠ some '\r') :
    lines (unlines ls) = ls := by
  induction ls with
  | nil => rfl
  | cons l ls ih =>
    have ⟨hn, hr⟩ := h l (by simp)
    have ih := ih fun k hk => h k (by simp [hk])
    simpa [unlines] using (lines_append_lineFeed (unlines ls) hn hr).trans (by rw [ih])

end BlockLang.Text
