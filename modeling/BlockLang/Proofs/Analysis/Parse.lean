import BlockLang.Analysis.Outcome
import Mathlib.Logic.Relation

/-!
# Parses

A parse is the reading of a program together with the session that follows its events. Step by step
it comes to an end or to a token that the source text does not have, and what it has gathered at its
end is the outcome of the analysis.
-/

namespace BlockLang

open Grammar (Event Reading arrival programGoals)

/-- A reading and the session that has followed it so far. -/
structure Parse where
  reading : Reading
  session : Session

namespace Parse

/-- The parse of some significant tokens before its first step. -/
def start (ts : List Token) (source : Text) : Except Mismatch Parse :=
  ((Session.start source).performAll (arrival ts)).map fun s => ⟨⟨programGoals, ts⟩, s⟩

/-- One step of the reading, followed by the session; `none` at the end of the program. -/
def step (p : Parse) : Option (Except Mismatch Parse) :=
  p.reading.step.map fun (es, r) => (p.session.performAll es).map fun s => ⟨r, s⟩

/-- One parse is a step after another. -/
def Steps (p q : Parse) : Prop := p.step = some (.ok q)

/-- The parse of some significant tokens comes to a state. -/
def Reachable (ts : List Token) (source : Text) (p : Parse) : Prop :=
  ∃ p₀, start ts source = .ok p₀ ∧ Relation.ReflTransGen Steps p₀ p

def outcome (p : Parse) : Outcome := ⟨p.session.symbols, p.session.errors.toList⟩

end Parse

/-! ## Sessions -/

/-- Whether an event makes a token the current one. -/
def Grammar.Event.isReach : Event → Bool
  | .reach _ => true
  | _ => false

namespace Session

theorem declare_eq (s : Session) (x : Text) :
    s.declare x =
      let r := s.symbols.declareVariable x s.scope.procedure .localVar integerType s.scope.level
      { s with symbols := r.2 }.noteIf r.1.isDuplicate (.duplicateVariable x) := rfl

theorem perform_reach {s t : Session} {u : Token} (h : s.perform (.reach u) = .ok t) :
    ∃ c, s.cursor.seek u.lexeme = .ok c ∧ t = { s with cursor := c } := by
  rw [perform] at h
  cases hc : s.cursor.seek u.lexeme with
  | error m =>
      rw [hc] at h
      cases h
  | ok c =>
      rw [hc] at h
      cases h
      exact ⟨c, rfl, rfl⟩

theorem performAll_cons_ok {s t : Session} {e : Event} (h : s.perform e = .ok t)
    (es : List Event) : s.performAll (e :: es) = t.performAll es := by
  rw [performAll, List.foldlM_cons, h]
  rfl

theorem performAll_cons_eq_ok {s t : Session} {e : Event} {es : List Event} :
    s.performAll (e :: es) = .ok t ↔ ∃ u, s.perform e = .ok u ∧ u.performAll es = .ok t := by
  cases h : s.perform e with
  | error m => simp [performAll, h, bind, Except.bind]
  | ok u => simp [performAll_cons_ok h]

theorem performAll_append (s : Session) (es fs : List Event) :
    s.performAll (es ++ fs) = s.performAll es >>= fun t => t.performAll fs :=
  List.foldlM_append

theorem performAll_append_eq_ok {s t : Session} {es fs : List Event} :
    s.performAll (es ++ fs) = .ok t ↔
      ∃ u, s.performAll es = .ok u ∧ u.performAll fs = .ok t := by
  rw [performAll_append]
  cases s.performAll es with
  | error m => simp [bind, Except.bind]
  | ok u => simp [bind, Except.bind]

theorem performAll_append_ok {s t : Session} {es : List Event} (h : s.performAll es = .ok t)
    (fs : List Event) : s.performAll (es ++ fs) = t.performAll fs := by
  rw [performAll_append, h]
  rfl

/-- What each event of a kind does to a session, as far as it adds up, any number of them do. -/
theorem performAll_of_perform {R : Session → Session → Prop} {E : Event → Prop}
    (hrefl : ∀ s, R s s) (htrans : ∀ s t u, R s t → R t u → R s u)
    (hperform : ∀ s t e, E e → s.perform e = .ok t → R s t) {s t : Session} {es : List Event}
    (hes : ∀ e ∈ es, E e) (h : s.performAll es = .ok t) : R s t := by
  induction es generalizing s with
  | nil =>
      cases h
      exact hrefl _
  | cons e es ih =>
      rw [List.forall_mem_cons] at hes
      obtain ⟨u, hu, h⟩ := performAll_cons_eq_ok.mp h
      exact htrans _ u t (hperform _ u e hes.1 hu) (ih hes.2 h)

end Session

theorem Outcome.ofTokens_eq_ok {ts : List Token} {source : Text} {o : Outcome} :
    ofTokens ts source = .ok o ↔ ∃ s,
      (Session.start source).performAll (Grammar.eventsOf (Token.significant ts)) = .ok s ∧
        o = ⟨s.symbols, s.errors.toList⟩ := by
  rw [ofTokens]
  cases (Session.start source).performAll (Grammar.eventsOf (Token.significant ts)) with
  | error m => simp [bind, Except.bind]
  | ok s => simp [bind, Except.bind, pure, Except.pure, eq_comm]

/-! ## Steps of a reading -/

namespace Grammar

/-- No move tells of the arrival of a token; that is left to the reading. -/
theorem Goal.isReach_of_keep {g : Goal} {ts : List Token} {es : List Event} {new : List Goal}
    (h : g.move ts = .keep es new) : ∀ e ∈ es, e.isReach = false := by
  cases g <;> simp only [Goal.move] at h <;> (repeat' split at h) <;> cases h <;>
    simp [Event.isReach]

theorem Goal.isReach_of_shift {g : Goal} {ts : List Token} {es : List Event} {new : List Goal}
    (h : g.move ts = .shift es new) : ∀ e ∈ es, e.isReach = false := by
  cases g <;> simp only [Goal.move] at h <;> (repeat' split at h) <;> cases h <;>
    simp [Event.isReach]

/-- A step tells of a goal and, if it consumes a token, of the arrival of the next one. -/
theorem Reading.step_eq_some {r r' : Reading} {es : List Event} (h : r.step = some (es, r')) :
    ∃ told, (∀ e ∈ told, e.isReach = false) ∧
      ((es = told ∧ r'.tokens = r.tokens) ∨
        (es = told ++ arrival r.tokens.tail ∧ r'.tokens = r.tokens.tail)) := by
  obtain ⟨goals, ts⟩ := r
  cases goals with
  | nil => cases h
  | cons g gs =>
      simp only [Reading.step] at h
      split at h
      · rename_i hm
        cases h
        exact ⟨es, Goal.isReach_of_keep hm, .inl ⟨rfl, rfl⟩⟩
      · rename_i told new hm
        cases h
        exact ⟨told, Goal.isReach_of_shift hm, .inr ⟨rfl, rfl⟩⟩

theorem Reading.isSuffix_of_step {r r' : Reading} {es : List Event}
    (h : r.step = some (es, r')) : r'.tokens <:+ r.tokens := by
  obtain ⟨told, -, ⟨-, hkeep⟩ | ⟨-, hshift⟩⟩ := Reading.step_eq_some h
  · simp [hkeep]
  · simp [hshift, List.tail_suffix]

end Grammar

namespace Grammar.Reading

theorem trace_of_end {r : Reading} (h : r.step = none) : r.trace = [] := by
  rw [trace]
  split
  · rfl
  · simp_all

theorem trace_of_step {r r' : Reading} {es : List Event} (h : r.step = some (es, r')) :
    r.trace = es ++ r'.trace := by
  rw [trace]
  split
  · simp_all
  · rename_i es₁ r₁ h₁
    obtain ⟨rfl, rfl⟩ : es₁ = es ∧ r₁ = r' := by simpa [h₁] using h
    rfl

/-- What holds of a reading whenever it holds after each of its steps, holds of every reading. -/
@[elab_as_elim]
theorem stepInduction {motive : Reading → Prop}
    (h : ∀ r : Reading, (∀ es r', r.step = some (es, r') → motive r') → motive r) (r : Reading) :
    motive r := by
  generalize hn : r.size = n
  induction n using Nat.strongRecOn generalizing r with
  | _ n ih => exact h r fun es r' hr => ih _ (hn ▸ size_lt_of_step hr) r' rfl

/-- What every step tells of has a property if each step keeps what the property follows from. -/
theorem forall_mem_trace {I : Reading → Prop} {E : Event → Prop}
    (hstep : ∀ r es r', I r → r.step = some (es, r') → (∀ e ∈ es, E e) ∧ I r') {r : Reading}
    (h : I r) : ∀ e ∈ r.trace, E e := by
  induction r using stepInduction with
  | h r ih =>
      cases hr : r.step with
      | none => simp [trace_of_end hr]
      | some x =>
          obtain ⟨es, r'⟩ := x
          obtain ⟨hes, hr'⟩ := hstep r es r' h hr
          rw [trace_of_step hr]
          exact fun e he => (List.mem_append.mp he).elim (hes e) (ih es r' hr hr' e)

end Grammar.Reading

/-! ## Runs -/

namespace Parse

variable {p q : Parse}

theorem start_eq_ok {ts : List Token} {source : Text} (h : start ts source = .ok p) :
    ∃ s, (Session.start source).performAll (arrival ts) = .ok s ∧ p = ⟨⟨programGoals, ts⟩, s⟩ := by
  rw [start] at h
  cases hs : (Session.start source).performAll (arrival ts) with
  | error m => simp [hs, Except.map] at h
  | ok s =>
      simp only [hs, Except.map, Except.ok.injEq] at h
      exact ⟨s, rfl, h.symm⟩

theorem steps_iff : p.Steps q ↔ ∃ es, p.reading.step = some (es, q.reading) ∧
    p.session.performAll es = .ok q.session := by
  obtain ⟨r, t⟩ := q
  rw [Steps, step, Option.map_eq_some_iff]
  constructor
  · rintro ⟨⟨es, r'⟩, hr, hs⟩
    dsimp only at hs
    cases h : p.session.performAll es with
    | error m => simp [h, Except.map] at hs
    | ok s =>
        simp only [h, Except.map, Except.ok.injEq, mk.injEq] at hs
        obtain ⟨rfl, rfl⟩ := hs
        exact ⟨es, hr, h⟩
  · rintro ⟨es, hr, hs⟩
    exact ⟨(es, r), hr, by simp [hs, Except.map]⟩

theorem step_eq_none_iff : p.step = none ↔ p.reading.goals = [] := by
  obtain ⟨⟨goals, ts⟩, s⟩ := p
  cases goals with
  | nil => simp [step, Reading.step]
  | cons g gs =>
      simp only [step, Reading.step, Option.map_eq_none_iff, reduceCtorEq, iff_false]
      split <;> simp

/-- What is left of the events, followed by the session. -/
def finish (p : Parse) : Except Mismatch Session := p.session.performAll p.reading.trace

theorem finish_of_end (h : p.step = none) : p.finish = .ok p.session := by
  have hr : p.reading.step = none := by simpa [step] using h
  rw [finish, Reading.trace_of_end hr]
  rfl

theorem finish_of_step {x : Except Mismatch Parse} (h : p.step = some x) :
    p.finish = x >>= finish := by
  obtain ⟨⟨es, r⟩, hr, rfl⟩ := Option.map_eq_some_iff.mp h
  rw [finish, Reading.trace_of_step hr, Session.performAll_append]
  dsimp only
  cases p.session.performAll es <;> rfl

theorem size_lt_of_steps (h : p.Steps q) : q.reading.size < p.reading.size := by
  obtain ⟨es, hr, -⟩ := steps_iff.mp h
  exact Reading.size_lt_of_step hr

theorem finish_of_reaches (h : Relation.ReflTransGen Steps p q) :
    p.finish = q.finish := by
  induction h with
  | refl => rfl
  | tail _ hs ih => rw [ih, finish_of_step hs]; rfl

/-- Every parse comes to its end or to a mismatch. -/
theorem exists_reaches_last (p : Parse) :
    ∃ q, Relation.ReflTransGen Steps p q ∧ (q.step = none ∨ ∃ m, q.step = some (.error m)) := by
  generalize hn : p.reading.size = n
  induction n using Nat.strongRecOn generalizing p with
  | _ n ih =>
      cases hs : p.step with
      | none => exact ⟨p, .refl, .inl hs⟩
      | some x =>
          cases x with
          | error m => exact ⟨p, .refl, .inr ⟨m, hs⟩⟩
          | ok q =>
              obtain ⟨r, hqr, hr⟩ := ih _ (hn ▸ size_lt_of_steps hs) q rfl
              exact ⟨r, .head hs hqr, hr⟩

theorem ofTokens_eq (ts : List Token) (source : Text) :
    Outcome.ofTokens ts source =
      (start (Token.significant ts) source >>= finish).map fun s => ⟨s.symbols, s.errors.toList⟩ := by
  rw [Outcome.ofTokens, Grammar.eventsOf, Session.performAll_append, start]
  cases (Session.start source).performAll (arrival (Token.significant ts)) <;> rfl

/-- The outcome of an analysis is what its parse has gathered at its end. -/
theorem ofTokens_eq_ok_iff {ts : List Token} {source : Text} {o : Outcome} :
    Outcome.ofTokens ts source = .ok o ↔
      ∃ p, Reachable (Token.significant ts) source p ∧ p.step = none ∧ p.outcome = o := by
  rw [ofTokens_eq]
  constructor
  · intro h
    cases hp : start (Token.significant ts) source with
    | error m => simp [hp, bind, Except.bind, Except.map] at h
    | ok p =>
        obtain ⟨q, hpq, hq⟩ := exists_reaches_last p
        have hfin := finish_of_reaches hpq
        rcases hq with hq | ⟨m, hq⟩
        · rw [finish_of_end hq] at hfin
          simp only [hp, bind, Except.bind, Except.map, hfin, Except.ok.injEq] at h
          exact ⟨q, ⟨p, hp, hpq⟩, hq, h⟩
        · rw [finish_of_step hq] at hfin
          simp [hp, bind, Except.bind, Except.map, hfin] at h
  · rintro ⟨q, ⟨p, hp, hpq⟩, hq, rfl⟩
    rw [hp]
    simp only [bind, Except.bind, Except.map, finish_of_reaches hpq, finish_of_end hq]
    rfl

end Parse

end BlockLang
