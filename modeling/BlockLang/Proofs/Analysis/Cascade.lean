import BlockLang.Proofs.Analysis.Reachability
import BlockLang.Proofs.Grammar.Budget

/-!
# Ends of parses

A parse does not look for a place to start anew after a fault, so that one mistake can lead to many
diagnostics, and at the end of the input it goes on with the goals that are left. It comes to an end
all the same, and what it notes is linear in the number of tokens.
-/

namespace BlockLang

open Grammar (Event Reading faultLimit)
open Relation (ReflTransGen)

/-! ## Noted faults -/

namespace Session

variable {s t : Session}

theorem size_errors_noteIf (s : Session) (b : Bool) (f : ScopeFault) :
    (s.noteIf b f).errors.size ≤ s.errors.size + 1 := by
  unfold noteIf
  split
  · simp [note]
  · exact Nat.le_succ _

/-- An event leads to one fault at most. -/
theorem size_errors_perform {e : Event} (h : s.perform e = .ok t) :
    t.errors.size ≤ s.errors.size + if e.canFault then 1 else 0 := by
  cases e with
  | reach u =>
      obtain ⟨c, -, rfl⟩ := perform_reach h
      exact Nat.le_refl _
  | report f =>
      cases h
      simp [note, Event.canFault]
  | declare x =>
      cases h
      rw [declare_eq]
      exact size_errors_noteIf _ _ _
  | use x | call x | enter x r =>
      cases h
      exact size_errors_noteIf _ _ _
  | parameter x =>
      cases h
      exact Nat.le_refl _
  | leave =>
      cases h
      unfold leave
      split <;> exact Nat.le_refl _

theorem size_errors_performAll {es : List Event} (h : s.performAll es = .ok t) :
    t.errors.size ≤ s.errors.size + faultLimit es := by
  induction es generalizing s with
  | nil =>
      cases h
      exact Nat.le_refl _
  | cons e es ih =>
      obtain ⟨u, hu, h⟩ := performAll_cons_eq_ok.mp h
      have hone := size_errors_perform hu
      have hrest := ih h
      rw [Grammar.faultLimit_cons]
      omega

end Session

namespace Parse

variable {p q : Parse} {ts : List Token} {source : Text} {n : Nat}

/-! ## The cascade -/

/-- What was noted and what can still be noted does not grow. -/
theorem budget_of_steps (h : p.Steps q) : q.session.errors.size + q.reading.budget ≤
    p.session.errors.size + p.reading.budget := by
  obtain ⟨es, hr, hs⟩ := steps_iff.mp h
  have hsize := Session.size_errors_performAll hs
  have hbudget := Reading.budget_of_step hr
  omega

theorem budget_of_reaches (h : ReflTransGen Steps p q) :
    q.session.errors.size + q.reading.budget ≤ p.session.errors.size + p.reading.budget := by
  induction h with
  | refl => exact Nat.le_refl _
  | tail _ hstep ih => exact (budget_of_steps hstep).trans ih

theorem Reachable.size_errors_le (h : Reachable ts source p) :
    p.session.errors.size ≤ 7 * ts.length + 5 := by
  obtain ⟨p₀, hp₀, hreach⟩ := h
  obtain ⟨s, hs, rfl⟩ := start_eq_ok hp₀
  have hstart := Session.size_errors_performAll hs
  have hbudget := budget_of_reaches hreach
  rw [Grammar.faultLimit_arrival] at hstart
  rw [Reading.budget_start] at hbudget
  have hnone : (Session.start source).errors.size = 0 := rfl
  dsimp only at hbudget
  omega

/-! ## The last state -/

/-- A parse goes no further: it is at the end of the program, or at a token that the source text does
not have. -/
def IsLast (p : Parse) : Prop := p.step = none ∨ ∃ m, p.step = some (.error m)

theorem exists_after_last (p : Parse) :
    ∃ n ≤ p.reading.size, ∃ q, after n p = some q ∧ q.IsLast := by
  generalize hsize : p.reading.size = k
  induction k using Nat.strongRecOn generalizing p with
  | _ k ih =>
      cases hs : p.step with
      | none => exact ⟨0, Nat.zero_le _, p, rfl, .inl hs⟩
      | some x =>
          cases x with
          | error m => exact ⟨0, Nat.zero_le _, p, rfl, .inr ⟨m, hs⟩⟩
          | ok q =>
              have hlt := size_lt_of_steps hs
              obtain ⟨n, hn, r, hr, hlast⟩ := ih _ (hsize ▸ hlt) q rfl
              exact ⟨n + 1, by omega, r, by rw [after, hs]; exact hr, hlast⟩

/-- At the end of the input the parse stays there. -/
theorem tokens_eq_nil_of_reaches (h : ReflTransGen Steps p q) (hp : p.reading.tokens = []) :
    q.reading.tokens = [] := by
  induction h with
  | refl => exact hp
  | tail _ hstep ih =>
      obtain ⟨es, hr, -⟩ := steps_iff.mp hstep
      exact List.suffix_nil.mp (ih ▸ Reading.isSuffix_of_step hr)

/-- At the end of the input nothing is sought in the source text. -/
theorem step_ne_error_of_tokens_eq_nil (hp : p.reading.tokens = []) (m : Mismatch) :
    p.step ≠ some (.error m) := by
  intro h
  obtain ⟨⟨es, r⟩, hr, hs⟩ := Option.map_eq_some_iff.mp h
  obtain ⟨told, htold, hes⟩ := Reading.step_eq_some hr
  have hreach : ∀ e ∈ es, e.isReach = false := by
    rw [hp] at hes
    rcases hes with ⟨rfl, -⟩ | ⟨rfl, -⟩
    · exact htold
    · simpa [Grammar.arrival] using htold
  obtain ⟨t, ht, -⟩ := Session.performAll_grows hreach p.session
  dsimp only at hs
  rw [ht] at hs
  cases hs

/-- A step moves the position by one token or leaves it where it is. -/
theorem exists_positions_of_steps (h : p.Steps q) (hp : p.reading.tokens <:+ ts) :
    ∃ i j, i ≤ j ∧ j ≤ i + 1 ∧ j ≤ ts.length ∧ p.reading.tokens = ts.drop i ∧
      q.reading.tokens = ts.drop j := by
  obtain ⟨es, hr, -⟩ := steps_iff.mp h
  obtain ⟨i, hi, hdrop⟩ : ∃ i ≤ ts.length, p.reading.tokens = ts.drop i :=
    ⟨_, Nat.sub_le _ _, List.suffix_iff_eq_drop.mp hp⟩
  obtain ⟨told, -, ⟨-, hkeep⟩ | ⟨-, hshift⟩⟩ := Reading.step_eq_some hr
  · exact ⟨i, i, Nat.le_refl _, Nat.le_succ _, hi, hdrop, hkeep.trans hdrop⟩
  · rw [hdrop, List.tail_drop] at hshift
    by_cases hlt : i < ts.length
    · exact ⟨i, i + 1, Nat.le_succ _, Nat.le_refl _, hlt, hdrop, hshift⟩
    · -- nothing is left to be consumed
      have hnil : ts.drop (i + 1) = ts.drop i := by
        rw [List.drop_of_length_le (by omega), List.drop_of_length_le (by omega)]
      exact ⟨i, i, Nat.le_refl _, Nat.le_succ _, hi, hdrop, hshift.trans hnil⟩

/-- A parse comes to its last state within `34 * n + 17` steps, where `n` is the number of
significant tokens: with the outcome of the analysis, or at a token that the source text does not
have. From any state in which no token is left, all goals are worked off without another token.
Meanwhile the position never goes back nor beyond the last token, and the diagnostics of an outcome
are at most `7 * n + 5`. -/
theorem ends_with_linear_cascade (ts : List Token) (source : Text) :
    let us := Token.significant ts
    ((∃ m, start us source = .error m ∧ Outcome.ofTokens ts source = .error m) ∨
      ∃ p₀ n q, start us source = .ok p₀ ∧ n ≤ 34 * us.length + 17 ∧ after n p₀ = some q ∧
        (q.step = none ∧ Outcome.ofTokens ts source = .ok q.outcome ∨
          ∃ m, q.step = some (.error m) ∧ Outcome.ofTokens ts source = .error m)) ∧
    (∀ p : Parse, p.reading.tokens = [] → ∃ n ≤ Reading.totalWeight p.reading.goals, ∃ q,
      after n p = some q ∧ q.step = none ∧ q.reading.tokens = []) ∧
    (∀ p q, Reachable us source p → p.Steps q → ∃ i j, i ≤ j ∧ j ≤ i + 1 ∧ j ≤ us.length ∧
      p.reading.tokens = us.drop i ∧ q.reading.tokens = us.drop j) ∧
    ∀ o, Outcome.ofTokens ts source = .ok o → o.errors.length ≤ 7 * us.length + 5 := by
  intro us
  refine ⟨?_, ?_, ?_, ?_⟩
  · cases hstart : start us source with
    | error m => exact .inl ⟨m, rfl, by rw [ofTokens_eq, hstart]; rfl⟩
    | ok p₀ =>
        obtain ⟨s, -, hp₀⟩ := start_eq_ok hstart
        obtain ⟨n, hn, q, hq, hlast⟩ := exists_after_last p₀
        have hsize : p₀.reading.size = 34 * us.length + 17 := by rw [hp₀]; rfl
        have hfinish : p₀.finish = q.finish := finish_of_reaches (reaches_of_after hq)
        have hof : Outcome.ofTokens ts source =
            q.finish.map fun s => ⟨s.symbols, s.errors.toList⟩ := by
          rw [ofTokens_eq, hstart, ← hfinish]
          rfl
        refine .inr ⟨p₀, n, q, rfl, hsize ▸ hn, hq, ?_⟩
        rcases hlast with hend | ⟨m, hend⟩
        · exact .inl ⟨hend, by rw [hof, finish_of_end hend]; rfl⟩
        · exact .inr ⟨m, hend, by rw [hof, finish_of_step hend]; rfl⟩
  · intro p hp
    obtain ⟨n, hn, q, hq, hlast⟩ := exists_after_last p
    have hnil := tokens_eq_nil_of_reaches (reaches_of_after hq) hp
    have hweight : p.reading.size = Reading.totalWeight p.reading.goals := by
      simp [Reading.size, hp]
    refine ⟨n, hweight ▸ hn, q, hq, ?_, hnil⟩
    rcases hlast with hend | ⟨m, hend⟩
    · exact hend
    · exact absurd hend (step_ne_error_of_tokens_eq_nil hnil m)
  · intro p q hp hpq
    exact exists_positions_of_steps hpq hp.isSuffix
  · intro o ho
    obtain ⟨p, hp, -, rfl⟩ := ofTokens_eq_ok_iff.mp ho
    simpa [outcome] using hp.size_errors_le

/-- Behind the word `if` seven things are missing, and the end of the program. -/
theorem ends_with_linear_cascade_if :
    ∃ o, Outcome.ofTokens (Lexed.ofSource "begin if".toList).tokens "begin if".toList = .ok o ∧
      o.errors.length = 8 ∧ o.errors.length ≤ 7 * 2 + 5 := by
  have hlast : ((start (Token.significant (Lexed.ofSource "begin if".toList).tokens)
        "begin if".toList).toOption.bind (after 24)).map
      (fun p => (p.reading.goals, p.session.errors.size)) = some ([], 8) := by decide +kernel
  obtain ⟨p, hp, heq⟩ := exists_reachable_of_after hlast
  obtain ⟨hgoals, hsize⟩ := Prod.mk.inj heq
  have ho := ofTokens_eq_ok_iff.mpr ⟨p, hp, step_eq_none_iff.mpr hgoals, rfl⟩
  have hlength : p.outcome.errors.length = 8 := by simpa [outcome] using hsize
  obtain ⟨-, -, -, hle⟩ := ends_with_linear_cascade _ _
  have htokens : (Token.significant (Lexed.ofSource "begin if".toList).tokens).length = 2 := by
    decide +kernel
  exact ⟨p.outcome, ho, hlength, htokens ▸ hle _ ho⟩

end Parse

end BlockLang
