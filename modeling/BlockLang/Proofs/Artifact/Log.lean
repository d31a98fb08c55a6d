import BlockLang.Artifact.Log
import BlockLang.Analysis.Outcome
import BlockLang.Proofs.Analysis.Quotation
import BlockLang.Proofs.Text.Lines
import BlockLang.Proofs.Text.Trimming

/-!
# Counting diagnostics

A log that was written with some diagnostics counts that many, as long as none of them spreads over
several lines. Those of the analysis of a program do not.
-/

namespace BlockLang

open Text

/-! ## Wordings on one line -/

theorem TokenKind.lineFeed_not_mem_describe (k : TokenKind) : '\n' ∉ k.describe := by
  cases k <;> decide

theorem Place.lineFeed_not_mem_describe (p : Place) : '\n' ∉ p.describe := by
  cases p <;> decide

theorem GrammarFault.lineFeed_not_mem_message {f : GrammarFault} (h : ∀ x ∈ f.text?, '\n' ∉ x) :
    '\n' ∉ f.message := by
  cases f with
  | missing k p =>
      refine List.not_mem_append (List.not_mem_append (by decide) k.lineFeed_not_mem_describe) ?_
      exact List.not_mem_cons_of_ne_of_not_mem (by decide) p.lineFeed_not_mem_describe
  | invalidDeclaration => exact (by decide)
  | unexpectedEnd => exact (by decide)
  | _ x => exact List.not_mem_append (by decide) (h x rfl)

theorem ScopeFault.lineFeed_not_mem_message {f : ScopeFault} (h : '\n' ∉ f.name) :
    '\n' ∉ f.message := by
  cases f with
  | duplicateVariable x | duplicateFunction x =>
      exact List.not_mem_append (List.not_mem_append (by decide) h) (by decide)
  | undefinedVariable x | undefinedFunction x => exact List.not_mem_append (by decide) h

theorem ProgramFault.lineFeed_not_mem_message {f : ProgramFault} (h : ∀ x ∈ f.text?, '\n' ∉ x) :
    '\n' ∉ f.message := by
  cases f with
  | grammar f => exact f.lineFeed_not_mem_message h
  | scope f => exact f.lineFeed_not_mem_message (h f.name rfl)

theorem Diagnostic.lineFeed_not_mem_render {φ : Type} [Fault φ] {d : Diagnostic φ}
    (h : '\n' ∉ Fault.message d.fault) : '\n' ∉ d.render := by
  have hn : '\n' ∉ decimal d.line := fun hm => absurd (isDigit_of_mem_decimal hm) (by decide)
  refine List.not_mem_append (List.not_mem_append (List.not_mem_append ?_ hn) ?_) h <;> decide

theorem Diagnostic.isBlankText_render {φ : Type} [Fault φ] (d : Diagnostic φ) :
    isBlankText d.render = false := rfl

/-! ## Counting -/

namespace Log

theorem count_append_line {l : Text} (h : '\n' ∉ l) (t : Text) :
    count (l ++ '\n' :: t) = (if isBlankText l then 0 else 1) + count t := by
  obtain ⟨k, hk, hlines⟩ := exists_lines_append h t
  have hblank : isBlankText l = isBlankText k := by
    rcases hk with rfl | rfl
    · rfl
    · rw [isBlankText_append]
      simp [isBlankText, isBlank]
  simp only [count, hlines, List.countP_cons, hblank]
  cases isBlankText k <;> simp [Nat.add_comm]

theorem ofDiagnostics_cons {φ : Type} [Fault φ] (d : Diagnostic φ) (ds : List (Diagnostic φ)) :
    ofDiagnostics (d :: ds) = d.render ++ '\n' :: ofDiagnostics ds := by
  simp [ofDiagnostics, unlines]

theorem count_ofDiagnostics {φ : Type} [Fault φ] {ds : List (Diagnostic φ)}
    (h : ∀ d ∈ ds, '\n' ∉ Fault.message d.fault) : count (ofDiagnostics ds) = ds.length := by
  induction ds with
  | nil => rfl
  | cons d ds ih =>
      have hd := Diagnostic.lineFeed_not_mem_render (h d (by simp))
      rw [ofDiagnostics_cons, count_append_line hd, ih fun e he => h e (by simp [he]),
        d.isBlankText_render, List.length_cons, Nat.add_comm]
      rfl

theorem count_eq_zero_iff (t : Text) : count t = 0 ↔ isBlankText t = true := by
  rw [isBlankText_iff_lines, count, List.countP_eq_zero]
  simp

/-- Blank text in front of a line does not count, wherever its own lines end. -/
theorem count_append_of_blank {g l : Text} (hg : isBlankText g = true) (hl : '\n' ∉ l) (t : Text) :
    count (g ++ (l ++ '\n' :: t)) = count (l ++ '\n' :: t) := by
  -- the line that is open when a part of the blank text was read is put in front
  suffices h : ∀ p : Text, '\n' ∉ p → isBlankText p = true →
      count (p ++ (g ++ (l ++ '\n' :: t))) = count (l ++ '\n' :: t) from h [] (by simp) rfl
  induction g with
  | nil =>
      intro p hp hblank
      rw [List.nil_append, ← List.append_assoc, count_append_line (List.not_mem_append hp hl),
        count_append_line hl, isBlankText_append, hblank, Bool.true_and]
  | cons c g ih =>
      intro p hp hblank
      rw [isBlankText, List.all_cons, Bool.and_eq_true] at hg
      by_cases hc : c = '\n'
      · subst c
        rw [List.cons_append, count_append_line hp, hblank, if_pos rfl, Nat.zero_add]
        exact ih hg.2 [] (by simp) rfl
      · have hopen := ih hg.2 (p ++ [c]) (by simpa [hp] using Ne.symm hc)
          (by rw [isBlankText_append, hblank]; simpa [isBlankText] using hg.1)
        rwa [List.append_assoc] at hopen

theorem count_append_ofDiagnostics {φ : Type} [Fault φ] {g : Text} (hg : isBlankText g = true)
    {ds : List (Diagnostic φ)} (h : ∀ d ∈ ds, '\n' ∉ Fault.message d.fault) :
    count (g ++ ofDiagnostics ds) = ds.length := by
  cases ds with
  | nil =>
      rw [show ofDiagnostics ([] : List (Diagnostic φ)) = [] from rfl, List.append_nil]
      exact (count_eq_zero_iff g).mpr hg
  | cons d ds =>
      have hd := Diagnostic.lineFeed_not_mem_render (h d (List.mem_cons_self ..))
      rw [ofDiagnostics_cons, count_append_of_blank hg hd, ← ofDiagnostics_cons,
        count_ofDiagnostics h]

end Log

/-- The diagnostics of a program are counted one by one when its lexemes hold no line feed, also
behind blank text. -/
theorem Outcome.count_append_errors {ts : List Token} {source g : Text} {o : Outcome}
    (h : ∀ t ∈ Token.significant ts, '\n' ∉ t.lexeme) (ho : ofTokens ts source = .ok o)
    (hg : isBlankText g = true) :
    Log.count (g ++ Log.ofDiagnostics o.errors) = o.errors.length := by
  have htexts := text?_of_mem_errors (P := fun x => '\n' ∉ x) h (by simp) (by decide) ho
  exact Log.count_append_ofDiagnostics hg fun d hd => d.fault.lineFeed_not_mem_message (htexts d hd)

end BlockLang
