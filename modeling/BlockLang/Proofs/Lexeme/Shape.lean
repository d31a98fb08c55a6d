import BlockLang.Lexeme.Stream
import BlockLang.Proofs.Text.Trimming

/-!
# The shape of lexemes

Every token that the automaton recognises has a lexeme of its kind, whatever text stands around it:
a word, a number or one of the symbols. Lexemes are not empty and hold no blank character.
-/

namespace BlockLang.Lexeme

/-- The lexemes other than words and numbers, each with its kind. -/
def symbols : List (Text × TokenKind) :=
  [("=".toList, .equal), ("<>".toList, .notEqual), ("<=".toList, .lessEqual), ("<".toList, .less),
    (">=".toList, .greaterEqual), (">".toList, .greater), ("-".toList, .minus),
    ("*".toList, .times), (":=".toList, .assign), ("(".toList, .leftParen),
    (")".toList, .rightParen), (";".toList, .semicolon)]

/-- A text is a lexeme of a kind. -/
inductive IsLexeme : TokenKind → Text → Prop where
  | word {c : Char} {w : Text} (hc : c.isAlpha = true) (hw : ∀ d ∈ w, d.isAlphanum = true)
      (hl : (c :: w).length < lexemeLimit) :
      IsLexeme ((TokenKind.keyword? (c :: w)).getD .identifier) (c :: w)
  | number {w : Text} (hne : w ≠ []) (hw : ∀ d ∈ w, d.isDigit = true)
      (hl : w.length < lexemeLimit) : IsLexeme .constant w
  | symbol {k : TokenKind} {x : Text} (h : (x, k) ∈ symbols) : IsLexeme k x

/-! ## Characters of lexemes -/

theorem isBlank_of_isAlphanum {c : Char} (h : c.isAlphanum = true) : isBlank c = false := by
  change (decide (c.val ≥ 'A'.val ∧ c.val ≤ 'Z'.val) ||
    (decide (c.val ≥ 'a'.val) && decide (c.val ≤ 'z'.val)) ||
      (decide (c.val ≥ '0'.val) && decide (c.val ≤ '9'.val))) = true at h
  simp only [Bool.or_eq_true, Bool.and_eq_true, decide_eq_true_eq, ge_iff_le,
    UInt32.le_iff_toNat_le] at h
  change ((65 ≤ c.toNat ∧ c.toNat ≤ 90) ∨ (97 ≤ c.toNat ∧ c.toNat ≤ 122)) ∨
    (48 ≤ c.toNat ∧ c.toNat ≤ 57) at h
  simp only [isBlank, Bool.or_eq_false_iff, Bool.and_eq_false_iff, decide_eq_false_iff_not,
    beq_eq_false_iff_ne]
  omega

theorem isAlphanum_of_isAlpha {c : Char} (h : c.isAlpha = true) : c.isAlphanum = true := by
  simp [Char.isAlphanum, h]

theorem isAlphanum_of_isDigit {c : Char} (h : c.isDigit = true) : c.isAlphanum = true := by
  simp [Char.isAlphanum, h]

theorem isAlpha_of_isDigit {c : Char} (h : c.isDigit = true) : c.isAlpha = false := by
  change (decide (c.val ≥ '0'.val) && decide (c.val ≤ '9'.val)) = true at h
  simp only [Bool.and_eq_true, decide_eq_true_eq, ge_iff_le, UInt32.le_iff_toNat_le] at h
  change 48 ≤ c.toNat ∧ c.toNat ≤ 57 at h
  change (decide (c.val ≥ 'A'.val ∧ c.val ≤ 'Z'.val) ||
    (decide (c.val ≥ 'a'.val) && decide (c.val ≤ 'z'.val))) = false
  simp only [Bool.or_eq_false_iff, Bool.and_eq_false_iff, decide_eq_false_iff_not, ge_iff_le,
    UInt32.le_iff_toNat_le]
  change ¬ (65 ≤ c.toNat ∧ c.toNat ≤ 90) ∧ (¬ 97 ≤ c.toNat ∨ ¬ c.toNat ≤ 122)
  omega

theorem isAlphanum_of_mem_punctuation {c : Char} (h : c ∈ punctuation) : c.isAlphanum = false := by
  have hall : punctuation.all (fun d => !d.isAlphanum) = true := by decide
  simpa using List.all_eq_true.mp hall c h

theorem isBlank_of_mem_punctuation {c : Char} (h : c ∈ punctuation) : isBlank c = false := by
  have hall : punctuation.all (fun d => !isBlank d) = true := by decide
  simpa using List.all_eq_true.mp hall c h

theorem isAlphanum_of_isBlank {c : Char} (h : isBlank c = true) : c.isAlphanum = false := by
  cases halphanum : c.isAlphanum with
  | false => rfl
  | true => exact absurd h (by simp [isBlank_of_isAlphanum halphanum])

theorem not_mem_punctuation_of_isBlank {c : Char} (h : isBlank c = true) : c ∉ punctuation := by
  intro hmem
  rw [isBlank_of_mem_punctuation hmem] at h
  cases h

theorem isTerminator_of_isAlphanum {c : Char} (h : c.isAlphanum = true) :
    isTerminator c = false := by
  have hmem : c ∉ punctuation := by
    intro hc
    rw [isAlphanum_of_mem_punctuation hc] at h
    cases h
  simp [isTerminator, isBlank_of_isAlphanum h, hmem]

namespace IsLexeme

theorem ne_nil {k : TokenKind} {x : Text} (h : IsLexeme k x) : x ≠ [] := by
  cases h with
  | word _ _ _ => simp
  | number hne _ _ => exact hne
  | symbol h =>
      rintro rfl
      revert h
      cases k <;> decide

theorem isBlank_eq_false {k : TokenKind} {x : Text} (h : IsLexeme k x) {c : Char} (hc : c ∈ x) :
    isBlank c = false := by
  cases h with
  | word ha hw _ =>
      rcases List.mem_cons.mp hc with rfl | hc
      · exact isBlank_of_isAlphanum (isAlphanum_of_isAlpha ha)
      · exact isBlank_of_isAlphanum (hw c hc)
  | number _ hw _ => exact isBlank_of_isAlphanum (isAlphanum_of_isDigit (hw c hc))
  | symbol h =>
      have hall : ∀ p ∈ symbols, Text.IsVisible p.1 := by decide
      exact (hall _ h).2 c hc

theorem keyword?_isEndMarker {x : Text} {k : TokenKind} (h : TokenKind.keyword? x = some k) :
    k.isEndMarker = false := by
  have hall : ∀ p ∈ TokenKind.reserved, p.2.isEndMarker = false := by decide
  obtain ⟨l, r, hl, -⟩ := List.lookup_eq_some_iff.mp h
  exact hall (x, k) (by simp [hl])

theorem isEndMarker_eq_false {k : TokenKind} {x : Text} (h : IsLexeme k x) :
    k.isEndMarker = false := by
  cases h with
  | @word c w _ _ _ =>
      cases hk : TokenKind.keyword? (c :: w) with
      | none => rfl
      | some k => exact keyword?_isEndMarker hk
  | number _ _ _ => rfl
  | symbol h =>
      have hall : ∀ p ∈ symbols, p.2.isEndMarker = false := by decide
      exact hall _ h

end IsLexeme

/-! ## Events -/

/-- A token event carries a lexeme of its kind; a fault may carry anything. -/
def Event.WellShaped : Event → Prop
  | .token k x => IsLexeme k x
  | .fault _ => True

/-- The characters in progress are those of a word or a number, where the state says so. -/
def State.WellShaped : State → Prop
  | .word w => ∃ c u, w.reverse = c :: u ∧ c.isAlpha = true ∧ ∀ d ∈ u, d.isAlphanum = true
  | .number w => w ≠ [] ∧ ∀ d ∈ w, d.isDigit = true
  | _ => True

theorem State.WellShaped.ofWord {w : Text} (h : (State.word w).WellShaped) :
    (Event.ofWord w.reverse).WellShaped := by
  obtain ⟨c, u, hu, hc, hw⟩ := h
  rw [hu]
  unfold Event.ofWord
  split
  · exact .word hc hw ‹_›
  · trivial

theorem State.WellShaped.ofNumber {w : Text} (h : (State.number w).WellShaped) :
    (Event.ofNumber w.reverse).WellShaped := by
  obtain ⟨hne, hw⟩ := h
  unfold Event.ofNumber
  split
  · exact .number (by simpa) (by simpa) ‹_›
  · trivial

theorem mem_punctuation_of_single? {c : Char} {k : TokenKind} (h : single? c = some k) :
    c ∈ punctuation := by
  unfold single? at h
  split at h <;> cases h <;> decide

theorem single?_isLexeme {c : Char} {k : TokenKind} (h : single? c = some k) : IsLexeme k [c] := by
  unfold single? at h
  split at h <;> cases h <;> exact .symbol (by decide)

/-- What a step leads to and what it tells of. -/
def State.Sound (r : State × List Event) : Prop := r.1.WellShaped ∧ ∀ e ∈ r.2, e.WellShaped

theorem State.sound_silent {s : State} (hs : s.WellShaped) : State.Sound (s, []) := ⟨hs, by simp⟩

theorem State.sound_token {k : TokenKind} {x : Text} (h : IsLexeme k x) :
    State.Sound (.start, [.token k x]) := by
  refine ⟨trivial, fun e he => ?_⟩
  rcases List.mem_singleton.mp he with rfl
  exact h

theorem State.opening_sound (c : Char) : State.Sound (State.opening c) := by
  unfold State.opening
  split
  · exact State.sound_silent ⟨c, [], rfl, ‹_›, by simp⟩
  split
  · exact State.sound_silent ⟨by simp, by simpa⟩
  split
  · rename_i k hk
    exact State.sound_token (single?_isLexeme hk)
  repeat' split
  all_goals exact State.sound_silent trivial

theorem State.after_sound {e : Event} (he : e.WellShaped) (c : Char) :
    State.Sound (State.after e c) := by
  have ⟨hs, hes⟩ := State.opening_sound c
  refine ⟨hs, fun e' he' => ?_⟩
  rcases List.mem_cons.mp he' with rfl | he'
  · exact he
  · exact hes e' he'

theorem State.after_fault_sound (f : LexicalFault) (c : Char) :
    State.Sound (State.after (.fault f) c) :=
  State.after_sound (e := .fault f) trivial c

/-- One step keeps the shape of what is in progress and tells of lexemes only. -/
theorem State.step_sound {s : State} (hs : s.WellShaped) (c : Char) : State.Sound (s.step c) := by
  cases s with
  | start => exact State.opening_sound c
  | word w =>
      simp only [State.step]
      split
      · obtain ⟨a, u, hu, ha, hw⟩ := hs
        refine State.sound_silent ⟨a, u ++ [c], by simp [hu], ha, fun d hd => ?_⟩
        rcases List.mem_append.mp hd with hd | hd
        · exact hw d hd
        · simp_all
      split
      · exact State.after_sound hs.ofWord c
      · exact State.sound_silent trivial
  | number w =>
      simp only [State.step]
      split
      · obtain ⟨-, hw⟩ := hs
        exact State.sound_silent ⟨by simp, by simp_all⟩
      split
      · exact State.after_sound hs.ofNumber c
      · exact State.sound_silent trivial
  | lessSign =>
      simp only [State.step]
      repeat' split
      · exact State.sound_token (.symbol (by decide))
      · exact State.sound_token (.symbol (by decide))
      · exact State.sound_silent trivial
      · exact State.after_sound (e := .token .less _) (IsLexeme.symbol (by decide)) c
  | greaterSign =>
      simp only [State.step]
      repeat' split
      · exact State.sound_token (.symbol (by decide))
      · exact State.sound_silent trivial
      · exact State.after_sound (e := .token .greater _) (IsLexeme.symbol (by decide)) c
  | colon =>
      simp only [State.step]
      split
      · exact State.sound_token (.symbol (by decide))
      · exact State.after_fault_sound _ c
  | operatorTail w =>
      simp only [State.step]
      split
      · exact State.sound_silent trivial
      · exact State.after_fault_sound _ c
  | illegalRun w =>
      simp only [State.step]
      split
      · exact State.after_fault_sound _ c
      · exact State.sound_silent trivial
  | brokenWord w =>
      simp only [State.step]
      split
      · exact State.after_fault_sound _ c
      · split <;> exact State.sound_silent trivial

theorem State.run_wellShaped {s : State} (hs : s.WellShaped) (t : Text) :
    ∀ e ∈ s.run t, e.WellShaped := by
  induction t generalizing s with
  | nil => exact (State.step_sound hs ' ').2
  | cons c t ih =>
      have ⟨hs', hes⟩ := State.step_sound hs c
      intro e he
      rcases List.mem_append.mp he with he | he
      · exact hes e he
      · exact ih hs' e he

/-- Every token of a line has a lexeme of its kind. -/
theorem isLexeme_of_mem_eventsOfLine {l x : Text} {k : TokenKind}
    (h : Event.token k x ∈ eventsOfLine l) : IsLexeme k x :=
  State.run_wellShaped (s := .start) trivial l _ h

end BlockLang.Lexeme
