import BlockLang.Proofs.Lexeme.Spacing

/-!
# Lines of a token stream

The tokens of a source text stand line by line in its stream, each line closed by its end marker, so
that the end markers before a token tell the line of that token.
-/

namespace BlockLang

/-- Each token carries the line that the end markers before it count up to, beginning with `n`. -/
def Token.Stamped : (n : Nat) → List Token → Prop
  | _, [] => True
  | n, t :: ts => t.line = n ∧ Stamped (if t.kind = .endOfLine then n + 1 else n) ts

theorem Token.stamped_iff {n : Nat} {ts : List Token} : Token.Stamped n ts ↔
    ∀ i t, ts[i]? = some t → t.line = n + (ts.take i).countP (·.kind = .endOfLine) := by
  induction ts generalizing n with
  | nil => simp [Token.Stamped]
  | cons u us ih =>
      rw [Token.Stamped, ih]
      constructor
      · rintro ⟨hu, hus⟩ i t ht
        cases i with
        | zero =>
            cases ht
            exact hu
        | succ i =>
            rw [hus i t ht, List.take_succ_cons, List.countP_cons]
            by_cases hk : u.kind = .endOfLine
            · simp [hk]; omega
            · simp [hk]
      · intro h
        refine ⟨h 0 u rfl, fun i t ht => ?_⟩
        rw [h (i + 1) t ht, List.take_succ_cons, List.countP_cons]
        by_cases hk : u.kind = .endOfLine
        · simp [hk]; omega
        · simp [hk]

theorem Token.Stamped.le_line {n : Nat} {ts : List Token} (h : Token.Stamped n ts) :
    ∀ t ∈ ts, n ≤ t.line := by
  induction ts generalizing n with
  | nil => simp
  | cons t ts ih =>
      intro u hu
      rcases List.mem_cons.mp hu with rfl | hu
      · exact Nat.le_of_eq h.1.symm
      · have := ih h.2 u hu
        split at this <;> omega

namespace Lexed

open Lexeme

/-! ## Streams line by line -/

/-- The stream of some lines, the first of which is line `n`. -/
def tokensFrom : (n : Nat) → List Text → List Token
  | n, [] => [Token.endOfFile n]
  | n, l :: ls => lineTokens n l ++ tokensFrom (n + 1) ls

theorem flatMap_lineTokens (ls : List Text) (n : Nat) :
    (ls.zipIdx n).flatMap (fun (l, i) => lineTokens i l) ++ [Token.endOfFile (n + ls.length)] =
      tokensFrom n ls := by
  induction ls generalizing n with
  | nil => rfl
  | cons l ls ih =>
      have hn : n + (l :: ls).length = n + 1 + ls.length := by simp only [List.length_cons]; omega
      rw [List.zipIdx_cons, List.flatMap_cons, List.append_assoc, hn, ih (n + 1)]
      rfl

theorem tokens_ofSource (source : Text) :
    (ofSource source).tokens = tokensFrom 1 (programLines source) := by
  rw [← flatMap_lineTokens]
  simp [ofSource, Nat.add_comm]

theorem clean_of_errors_eq_nil {source : Text} (h : (ofSource source).errors = []) :
    ∀ l ∈ programLines source, Clean (eventsOfLine l) := by
  intro l hl f hf
  obtain ⟨i, hi⟩ : ∃ i, (l, i) ∈ (programLines source).zipIdx 1 := by
    obtain ⟨k, hk, rfl⟩ := List.mem_iff_getElem.mp hl
    exact ⟨1 + k, List.mem_zipIdx_iff_le_and_getElem?_sub.mpr (by simp [hk])⟩
  have hnil : lineErrors i l = [] := by
    simp only [ofSource, List.flatMap_eq_nil_iff] at h
    exact h (l, i) hi
  have hmem : (⟨f, i⟩ : Diagnostic LexicalFault) ∈ lineErrors i l :=
    List.mem_filterMap.mpr ⟨_, hf, rfl⟩
  rw [hnil] at hmem
  cases hmem

/-- A source text is free of lexical faults exactly if each of its lines is. -/
theorem errors_eq_nil_iff {source : Text} :
    (ofSource source).errors = [] ↔ ∀ l ∈ programLines source, Clean (eventsOfLine l) := by
  constructor
  · exact clean_of_errors_eq_nil
  · intro h
    simp only [ofSource, List.flatMap_eq_nil_iff]
    rintro ⟨l, i⟩ hl
    have hclean := h l (List.fst_mem_of_mem_zipIdx hl)
    refine List.filterMap_eq_nil_iff.mpr fun e he => ?_
    cases e with
    | token k x => rfl
    | fault f => exact absurd he (hclean f)

/-! ## Tokens of a line -/

theorem mem_filterMap_token? {l : Text} {n : Nat} {t : Token}
    (h : t ∈ (eventsOfLine l).filterMap (Event.token? n)) :
    IsLexeme t.kind t.lexeme ∧ t.line = n := by
  obtain ⟨e, he, ht⟩ := List.mem_filterMap.mp h
  cases e with
  | fault f => cases ht
  | token k x =>
      cases ht
      exact ⟨isLexeme_of_mem_eventsOfLine he, rfl⟩

/-- A token of a stream is a lexeme of its kind or an end marker. -/
theorem isLexeme_or_marker_of_mem {n : Nat} {ls : List Text} {t : Token}
    (h : t ∈ tokensFrom n ls) :
    IsLexeme t.kind t.lexeme ∨ t = .endOfLine t.line ∨ t = .endOfFile t.line := by
  induction ls generalizing n with
  | nil =>
      rcases List.mem_singleton.mp h with rfl
      exact .inr (.inr rfl)
  | cons l ls ih =>
      simp only [tokensFrom, lineTokens, List.mem_append, List.mem_singleton] at h
      rcases h with (h | rfl) | h
      · exact .inl (mem_filterMap_token? h).1
      · exact .inr (.inl rfl)
      · exact ih h

theorem isVisible_of_mem_tokens {source : Text} {t : Token} (h : t ∈ (ofSource source).tokens) :
    Text.IsVisible t.lexeme := by
  rw [tokens_ofSource] at h
  rcases isLexeme_or_marker_of_mem h with h | h | h
  · exact h.isVisible
  · rw [h]
    exact (by decide : Text.IsVisible "EOLN".toList)
  · rw [h]
    exact (by decide : Text.IsVisible "EOF".toList)

theorem significant_lineTokens (n : Nat) (l : Text) :
    Token.significant (lineTokens n l) = (eventsOfLine l).filterMap (Event.token? n) := by
  rw [lineTokens, Token.significant_append]
  have hall : ∀ t ∈ (eventsOfLine l).filterMap (Event.token? n), (!t.kind.isEndMarker) = true := by
    intro t ht
    simp [(mem_filterMap_token? ht).1.isEndMarker_eq_false]
  rw [show Token.significant [Token.endOfLine n] = [] from rfl, List.append_nil]
  exact List.filter_eq_self.mpr hall

/-! ## Stamps -/

theorem stamped_append {n : Nat} {ts us : List Token} (hl : ∀ t ∈ ts, t.line = n)
    (hk : ∀ t ∈ ts, t.kind ≠ .endOfLine) (hu : Token.Stamped n us) :
    Token.Stamped n (ts ++ us) := by
  induction ts with
  | nil => exact hu
  | cons t ts ih =>
      refine ⟨hl t (by simp), ?_⟩
      rw [if_neg (hk t (by simp))]
      exact ih (fun t ht => hl t (by simp [ht])) fun t ht => hk t (by simp [ht])

theorem stamped_tokensFrom (n : Nat) (ls : List Text) : Token.Stamped n (tokensFrom n ls) := by
  induction ls generalizing n with
  | nil => exact ⟨rfl, trivial⟩
  | cons l ls ih =>
      rw [tokensFrom, lineTokens, List.append_assoc]
      refine stamped_append (fun t ht => (mem_filterMap_token? ht).2) (fun t ht hk => ?_)
        ⟨rfl, ih (n + 1)⟩
      have := (mem_filterMap_token? ht).1.isEndMarker_eq_false
      rw [hk] at this
      cases this

theorem stamped_tokens (source : Text) : Token.Stamped 1 (ofSource source).tokens := by
  rw [tokens_ofSource]
  exact stamped_tokensFrom 1 _

/-! ## End markers -/

/-- The end markers of a stream are one for each of its lines and one on the line behind them. -/
theorem filter_isEndMarker_tokensFrom (n : Nat) (ls : List Text) :
    (tokensFrom n ls).filter (·.kind.isEndMarker) =
      (List.range' n ls.length).map Token.endOfLine ++ [Token.endOfFile (n + ls.length)] := by
  induction ls generalizing n with
  | nil => rfl
  | cons l ls ih =>
      have hwords : ((eventsOfLine l).filterMap (Event.token? n)).filter
          (·.kind.isEndMarker) = [] := by
        refine List.filter_eq_nil_iff.mpr fun t ht => ?_
        simp [(mem_filterMap_token? ht).1.isEndMarker_eq_false]
      have hmarker : [Token.endOfLine n].filter (·.kind.isEndMarker) = [Token.endOfLine n] := rfl
      have hn : n + (l :: ls).length = n + 1 + ls.length := by simp only [List.length_cons]; omega
      rw [tokensFrom, lineTokens, List.filter_append, List.filter_append, hwords, hmarker,
        ih (n + 1), hn, List.length_cons, List.range'_succ]
      rfl

/-! ## Lines and their tokens -/

/-- The significant tokens of a stream that carry the number of a line are those of that line. -/
theorem filter_line_tokensFrom (n i : Nat) (ls : List Text) :
    (Token.significant (tokensFrom n ls)).filter (fun t => t.line = n + i) =
      ((ls[i]?.map eventsOfLine).getD []).filterMap (Event.token? (n + i)) := by
  induction ls generalizing n i with
  | nil => rfl
  | cons l ls ih =>
      rw [tokensFrom, Token.significant_append, significant_lineTokens, List.filter_append]
      cases i with
      | zero =>
          have hhere : ∀ t ∈ (eventsOfLine l).filterMap (Event.token? n),
              decide (t.line = n + 0) = true := by
            intro t ht
            simpa using (mem_filterMap_token? ht).2
          have hbehind : ∀ t ∈ Token.significant (tokensFrom (n + 1) ls),
              ¬ decide (t.line = n + 0) = true := by
            intro t ht
            have := (stamped_tokensFrom (n + 1) ls).le_line t (Token.mem_significant.mp ht).1
            simp only [decide_eq_true_eq]
            omega
          rw [List.filter_eq_self.mpr hhere, List.filter_eq_nil_iff.mpr hbehind, List.append_nil]
          rfl
      | succ i =>
          have hhere : ∀ t ∈ (eventsOfLine l).filterMap (Event.token? n),
              ¬ decide (t.line = n + (i + 1)) = true := by
            intro t ht
            have := (mem_filterMap_token? ht).2
            simp only [decide_eq_true_eq]
            omega
          have hnumber : n + (i + 1) = n + 1 + i := by omega
          rw [List.filter_eq_nil_iff.mpr hhere, List.nil_append, hnumber, ih (n + 1) i]
          rfl

end Lexed

end BlockLang
