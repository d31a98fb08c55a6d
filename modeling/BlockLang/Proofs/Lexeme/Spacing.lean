import BlockLang.Proofs.Lexeme.Shape
import BlockLang.Proofs.Text.Trimming

/-!
# Lines without lexical faults

A line on which the automaton finds no fault consists of its lexemes in order, with nothing but
blank characters around and between them.
-/

namespace BlockLang.Lexeme

open Text (IsVisible isBlankText)

/-! ## Spaced lexemes -/

/-- A text consists of some lexemes in order, with blank characters around and between them. -/
inductive Spaced : List Text → Text → Prop where
  | blank {t : Text} (ht : isBlankText t = true) : Spaced [] t
  | lexeme {g x t : Text} {xs : List Text} (hg : isBlankText g = true) (hx : IsVisible x)
      (h : Spaced xs t) : Spaced (x :: xs) (g ++ x ++ t)

namespace Spaced

theorem cons {x t : Text} {xs : List Text} (hx : IsVisible x) (h : Spaced xs t) :
    Spaced (x :: xs) (x ++ t) :=
  .lexeme (g := []) rfl hx h

theorem cons_blank {c : Char} {t : Text} {xs : List Text} (hc : isBlank c = true)
    (h : Spaced xs t) : Spaced xs (c :: t) := by
  cases h with
  | blank ht => exact .blank (by simpa [isBlankText, hc] using ht)
  | @lexeme g x t xs hg hx h =>
      exact .lexeme (g := c :: g) (by simpa [isBlankText, hc] using hg) hx h

/-- Blank characters at the end are no part of a lexeme. -/
theorem of_append_blank {c : Char} (hc : isBlank c = true) {xs : List Text} {t : Text} :
    Spaced xs (t ++ [c]) → Spaced xs t := by
  intro h
  generalize hu : t ++ [c] = u at h
  induction h generalizing t with
  | blank hu' =>
      subst hu
      exact .blank (by simp_all [Text.isBlankText_append])
  | @lexeme g x v xs hg hx h ih =>
      rcases List.eq_nil_or_concat v with rfl | ⟨v, d, rfl⟩
      · -- the last character would be one of the lexeme
        have hl := congrArg List.getLast? hu
        simp only [List.append_nil, List.getLast?_append, List.getLast?_singleton,
          Option.some_or, List.getLast?_eq_some_getLast hx.1, Option.some.injEq] at hl
        exact absurd (hx.2 c (hl ▸ List.getLast_mem hx.1)) (by simp [hc])
      · rw [List.concat_eq_append, ← List.append_assoc] at hu
        obtain ⟨rfl, hd⟩ := List.append_inj' hu rfl
        exact .lexeme hg hx (ih (by rw [hd, List.concat_eq_append]))

theorem trimStart {xs : List Text} {t : Text} (h : Spaced xs t) : Spaced xs (Text.trimStart t) := by
  cases h with
  | blank ht => exact .blank (by simp [Text.trimStart_of_blank ht, isBlankText])
  | lexeme hg hx h =>
      rw [List.append_assoc, Text.trimStart_append_of_blank hg, Text.trimStart_append_of_visible hx]
      exact .cons hx h

theorem isVisible_of_mem {xs : List Text} {t : Text} (h : Spaced xs t) :
    ∀ x ∈ xs, IsVisible x := by
  induction h with
  | blank _ => simp
  | lexeme _ hx _ ih =>
      intro y hy
      rcases List.mem_cons.mp hy with rfl | hy
      · exact hx
      · exact ih y hy

theorem eq_nil_of_trimmed {t : Text} (h : Spaced [] t) (ht : Text.trimStart t = t) : t = [] := by
  cases h with
  | blank hb => exact ht ▸ Text.trimStart_of_blank hb

/-- Without blank characters in front, the text begins with the first lexeme. -/
theorem cons_of_trimmed {x t : Text} {xs : List Text} (h : Spaced (x :: xs) t)
    (ht : Text.trimStart t = t) : IsVisible x ∧ ∃ u, t = x ++ u ∧ Spaced xs u := by
  cases h with
  | @lexeme g _ u _ hg hx h =>
      refine ⟨hx, u, ?_, h⟩
      rw [← ht, List.append_assoc, Text.trimStart_append_of_blank hg,
        Text.trimStart_append_of_visible hx]

end Spaced

/-! ## Runs of the automaton -/

def Event.lexeme? : Event → Option Text
  | .token _ x => some x
  | .fault _ => none

/-- The characters in progress, as they stand on the line. -/
def State.pending : State → Text
  | .start => []
  | .word w | .number w | .operatorTail w | .illegalRun w | .brokenWord w => w.reverse
  | .lessSign => ['<']
  | .greaterSign => ['>']
  | .colon => [':']

/-- The states that no lexeme can come out of any more. -/
def State.isDoomed : State → Bool
  | .operatorTail _ | .illegalRun _ | .brokenWord _ => true
  | _ => false

def Clean (es : List Event) : Prop := ∀ f, Event.fault f ∉ es

theorem Clean.of_cons {e : Event} {es : List Event} (h : Clean (e :: es)) : Clean es :=
  fun f hf => h f (List.mem_cons_of_mem _ hf)

theorem Clean.of_append {es fs : List Event} (h : Clean (es ++ fs)) : Clean es ∧ Clean fs :=
  ⟨fun f hf => h f (List.mem_append_left _ hf), fun f hf => h f (List.mem_append_right _ hf)⟩

/-- A step tells of a fault or leads to a doomed state. -/
def State.Fails (r : State × List Event) : Prop := Clean r.2 → r.1.isDoomed = true

theorem State.after_fault_fails (f : LexicalFault) (c : Char) :
    State.Fails (State.after (.fault f) c) :=
  fun h => absurd (List.mem_cons_self ..) (h f)

theorem State.step_fails {s : State} (hs : s.isDoomed = true) (c : Char) :
    State.Fails (s.step c) := by
  cases s with
  | operatorTail w =>
      simp only [State.step]
      split
      · exact fun _ => rfl
      · exact State.after_fault_fails _ _
  | illegalRun w =>
      simp only [State.step]
      split
      · exact State.after_fault_fails _ _
      · exact fun _ => rfl
  | brokenWord w =>
      simp only [State.step]
      split
      · exact State.after_fault_fails _ _
      · split <;> exact fun _ => rfl
  | _ => cases hs

/-- A run from a doomed state meets a fault. -/
theorem State.isDoomed_eq_false_of_clean {s : State} {t : Text} (h : Clean (s.run t)) :
    s.isDoomed = false := by
  induction t generalizing s with
  | nil =>
      cases hs : s.isDoomed with
      | false => rfl
      | true =>
          have hd := State.step_fails hs ' ' h
          rw [State.step_blank] at hd
          cases hd
  | cons c t ih =>
      have ⟨hc, ht⟩ := h.of_append
      cases hs : s.isDoomed with
      | false => rfl
      | true => exact (State.step_fails hs c hc).symm.trans (ih ht)

/-! ## What a step makes of the line -/

/-- After a step without faults that stays on the way to a lexeme, the text `p` that was read is
accounted for by the lexemes that came out and the characters in progress. -/
def State.Accounts (p : Text) (r : State × List Event) : Prop :=
  Clean r.2 → r.1.isDoomed = false → ∀ {xs : List Text} {t : Text},
    Spaced xs (r.1.pending ++ t) → Spaced (r.2.filterMap Event.lexeme? ++ xs) (p ++ t)

theorem IsLexeme.isVisible {k : TokenKind} {x : Text} (h : IsLexeme k x) : IsVisible x :=
  ⟨h.ne_nil, fun _ => h.isBlank_eq_false⟩

theorem State.accounts_silent (s : State) : State.Accounts s.pending (s, []) :=
  fun _ _ _ _ h => h

theorem State.accounts_token {k : TokenKind} {x : Text} (h : IsLexeme k x) :
    State.Accounts x (.start, [.token k x]) :=
  fun _ _ _ _ ht => .cons h.isVisible ht

theorem State.accounts_opening (c : Char) : State.Accounts [c] (State.opening c) := by
  unfold State.opening
  split
  · exact State.accounts_silent (.word [c])
  split
  · exact State.accounts_silent (.number [c])
  split
  · rename_i k hk
    exact State.accounts_token (single?_isLexeme hk)
  split
  · subst c
    exact State.accounts_silent .lessSign
  split
  · subst c
    exact State.accounts_silent .greaterSign
  split
  · subst c
    exact State.accounts_silent .colon
  split
  · exact fun _ _ _ _ h => h.cons_blank ‹_›
  · exact State.accounts_silent (.illegalRun [c])

/-- Closing a lexeme accounts for its characters and leaves the rest to the next state. -/
theorem State.accounts_after {e : Event} {x : Text} (he : e.WellShaped)
    (hx : ∀ y ∈ e.lexeme?, y = x) (c : Char) : State.Accounts (x ++ [c]) (State.after e c) := by
  intro hc hd xs t ht
  cases e with
  | fault f => exact absurd (List.mem_cons_self ..) (hc f)
  | token k y =>
      obtain rfl := hx y rfl
      have hrest := State.accounts_opening c (Clean.of_cons hc) hd ht
      simpa [State.after, Event.lexeme?] using Spaced.cons (IsLexeme.isVisible he) hrest

theorem Event.ofWord_lexeme? (w : Text) : ∀ y ∈ (Event.ofWord w).lexeme?, y = w := by
  unfold Event.ofWord
  split <;> simp [Event.lexeme?]

theorem Event.ofNumber_lexeme? (w : Text) : ∀ y ∈ (Event.ofNumber w).lexeme?, y = w := by
  unfold Event.ofNumber
  split <;> simp [Event.lexeme?]

theorem State.accounts_after_fault (f : LexicalFault) (x : Text) (c : Char) :
    State.Accounts (x ++ [c]) (State.after (.fault f) c) :=
  State.accounts_after (e := .fault f) trivial (by simp [Event.lexeme?]) c

theorem State.accounts_push (back : Text) (c : Char) {s : State}
    (hs : s.pending = (c :: back).reverse) :
    State.Accounts (back.reverse ++ [c]) (s, []) := by
  rw [← List.reverse_cons, ← hs]
  exact State.accounts_silent s

theorem State.accounts_step {s : State} (hs : s.WellShaped) (hd : s.isDoomed = false) (c : Char) :
    State.Accounts (s.pending ++ [c]) (s.step c) := by
  cases s with
  | start => exact State.accounts_opening c
  | word w =>
      simp only [State.step]
      split
      · exact State.accounts_push w c rfl
      split
      · exact State.accounts_after hs.ofWord (Event.ofWord_lexeme? _) c
      · exact State.accounts_push w c rfl
  | number w =>
      simp only [State.step]
      split
      · exact State.accounts_push w c rfl
      split
      · exact State.accounts_after hs.ofNumber (Event.ofNumber_lexeme? _) c
      · exact State.accounts_push w c rfl
  | lessSign =>
      simp only [State.step]
      split
      · subst c
        exact State.accounts_token (.symbol (by decide))
      split
      · subst c
        exact State.accounts_token (.symbol (by decide))
      split
      · exact State.accounts_push ['<'] c rfl
      · exact State.accounts_after (e := .token .less _) (IsLexeme.symbol (by decide))
          (by simp [Event.lexeme?, State.pending]) c
  | greaterSign =>
      simp only [State.step]
      split
      · subst c
        exact State.accounts_token (.symbol (by decide))
      split
      · exact State.accounts_push ['>'] c rfl
      · exact State.accounts_after (e := .token .greater _) (IsLexeme.symbol (by decide))
          (by simp [Event.lexeme?, State.pending]) c
  | colon =>
      simp only [State.step]
      split
      · subst c
        exact State.accounts_token (.symbol (by decide))
      · exact State.accounts_after_fault _ _ c
  | _ => cases hd

/-- A run without faults accounts for the whole rest of the line. -/
theorem State.spaced_run {s : State} (hs : s.WellShaped) {t : Text} (h : Clean (s.run t)) :
    Spaced ((s.run t).filterMap Event.lexeme?) (s.pending ++ t) := by
  have hd := State.isDoomed_eq_false_of_clean h
  -- the characters in progress change with each step, so the text before them is put in front
  induction t generalizing s with
  | nil =>
      have hstart : (s.step ' ').1.isDoomed = false := by rw [State.step_blank]; rfl
      have hrest : Spaced [] ((s.step ' ').1.pending ++ []) := by
        rw [State.step_blank]
        exact .blank rfl
      have := State.accounts_step hs hd ' ' h hstart hrest
      rw [List.append_nil, List.append_nil] at this
      rw [List.append_nil]
      exact this.of_append_blank (by decide)
  | cons c t ih =>
      have ⟨hc, ht⟩ := h.of_append
      have hd' := State.isDoomed_eq_false_of_clean ht
      have hrest := ih (State.step_sound hs c).1 ht hd'
      have := State.accounts_step hs hd c hc hd' hrest
      simpa [State.run] using this

/-- A line without lexical faults consists of its lexemes and blank characters. -/
theorem spaced_of_clean {l : Text} (h : Clean (eventsOfLine l)) :
    Spaced ((eventsOfLine l).filterMap Event.lexeme?) l :=
  State.spaced_run (s := .start) trivial h

end BlockLang.Lexeme
