import BlockLang.Proofs.Analysis.Reachability
import BlockLang.Proofs.Grammar.Headers
import BlockLang.Proofs.Symbol.Ranges

/-!
# Parameters of functions

The range of a function is recorded when the place of its parameter was read. Whatever was declared
before and is declared later, twice or in functions of its own, the range leads to the parameter. As
long as no function is declared twice, a range is recorded for every header, and it is empty exactly
if the parameter was reported missing there.
-/

namespace BlockLang

open Grammar (Event Goal Heads Reading arrival heads_programGoals)
open Relation (ReflTransGen)

/-! ## Sessions -/

namespace Session

variable {s t : Session} {e : Event} {es : List Event} {f r : Text}

/-! ### Ranges -/

theorem ranged_parameter (h : s.symbols.Ranged) (hs : s.Sound) (x : Option Text) :
    (s.parameter x).symbols.Ranged := by
  obtain ⟨r, hr, hlevel⟩ := hs.scope
  cases x with
  | none =>
      rw [parameter]
      split
      · refine h.setParameterRange fun o ho => ⟨.inl rfl, Nat.le_refl _, fun i hfirst hlast => ?_⟩
        exact absurd hlast (Nat.not_lt_of_le hfirst)
      · exact h
  | some x =>
      rw [parameter, hlevel]
      split
      · exact h.declareParameter hr x integerType
      · exact h.declareVariable x s.scope.procedure .parameter integerType r.level

theorem ranged_perform (h : s.symbols.Ranged) (hs : s.Sound) (ht : s.perform e = .ok t) :
    t.symbols.Ranged := by
  cases e with
  | reach u =>
      obtain ⟨c, -, rfl⟩ := perform_reach ht
      exact h
  | report f => cases ht; exact h
  | declare x =>
      cases ht
      rw [declare_eq, symbols_noteIf]
      exact h.declareVariable x s.scope.procedure .localVar integerType s.scope.level
  | use x => cases ht; rwa [use, symbols_noteIf]
  | call f => cases ht; rwa [call, symbols_noteIf]
  | enter f r =>
      cases ht
      have hprocedure := h.declareProcedure f r (s.scope.level + 1) s.scope.procedure
      exact hprocedure.declareVariable f _ .localVar r (s.scope.level + 1)
  | parameter x => cases ht; exact ranged_parameter h hs x
  | leave => cases ht; rwa [symbols_leave]

theorem ranged_performAll {past : List Syntax.Occurrence} {π : List Text} (h : s.symbols.Ranged)
    (hs : s.Mirrors past π) (ht : s.performAll es = .ok t) : t.symbols.Ranged := by
  induction es generalizing s past π with
  | nil =>
      cases ht
      exact h
  | cons e es ih =>
      obtain ⟨u, hu, ht⟩ := performAll_cons_eq_ok.mp ht
      exact ih (ranged_perform h hs.sound hu) (hs.perform hu).mirrors ht

/-! ### Events outside of headers -/

theorem sameHeaders_perform (he : e.isHeader = false) (ht : s.perform e = .ok t) :
    s.symbols.SameHeaders t.symbols := by
  cases e with
  | reach u =>
      obtain ⟨c, -, rfl⟩ := perform_reach ht
      exact .refl _
  | report f => cases ht; exact .refl _
  | declare x =>
      cases ht
      rw [declare_eq, symbols_noteIf]
      exact SymbolTable.sameHeaders_declareVariable ..
  | use x => cases ht; rw [use, symbols_noteIf]; exact .refl _
  | call f => cases ht; rw [call, symbols_noteIf]; exact .refl _
  | enter f r => cases he
  | parameter x => cases he
  | leave => cases ht; rw [symbols_leave]; exact .refl _

theorem sameHeaders_performAll (hes : ∀ e ∈ es, e.isHeader = false) (ht : s.performAll es = .ok t) :
    s.symbols.SameHeaders t.symbols :=
  performAll_of_perform (fun _ => .refl _) (fun _ _ _ h k => h.trans k)
    (fun _ _ _ he h => sameHeaders_perform he h) hes ht

theorem perform_quiet (he : e.isQuiet = true) (ht : s.perform e = .ok t) :
    t.symbols = s.symbols ∧ t.scope = s.scope := by
  cases e with
  | reach u =>
      obtain ⟨c, -, rfl⟩ := perform_reach ht
      exact ⟨rfl, rfl⟩
  | report f => cases ht; exact ⟨rfl, rfl⟩
  | _ => cases he

theorem performAll_quiet (hes : ∀ e ∈ es, e.isQuiet = true) (ht : s.performAll es = .ok t) :
    t.symbols = s.symbols ∧ t.scope = s.scope :=
  performAll_of_perform (fun _ => ⟨rfl, rfl⟩)
    (fun _ _ _ h k => ⟨k.1.trans h.1, k.2.trans h.2⟩) (fun _ _ _ he h => perform_quiet he h) hes ht

theorem performAll_arrival {ts : List Token} (h : s.performAll (arrival ts) = .ok t) :
    ∃ c, t = { s with cursor := c } := by
  cases ts with
  | nil =>
      cases h
      exact ⟨_, rfl⟩
  | cons u ts =>
      obtain ⟨v, hv, h⟩ := performAll_cons_eq_ok.mp h
      obtain ⟨c, -, rfl⟩ := perform_reach hv
      cases h
      exact ⟨c, rfl⟩

/-! ### Events of headers -/

/-- A new function is the current scope, with an empty range. -/
theorem enter_new (r : Text) (hnew : s.symbols.findProcedure?
    ⟨f, s.scope.level + 1, some s.scope.procedure⟩ = none) :
    (s.symbols.pushProcedure
      ⟨f, r, s.scope.level + 1, 0, 0, some s.scope.procedure⟩).SameHeaders (s.enter f r).symbols ∧
      (s.enter f r).scope = ⟨⟨s.symbols.procedureRows.size⟩, s.scope.level + 1, true⟩ := by
  simp only [enter, SymbolTable.declareProcedure_of_none hnew]
  exact ⟨SymbolTable.sameHeaders_declareVariable .., rfl⟩

/-- No other procedure is concerned by the parameter of the current one. -/
theorem procedure?_parameter_of_ne {x : ProcId} (hx : s.scope.procedure ≠ x) (y : Option Text) :
    (s.parameter y).symbols.procedure? x = s.symbols.procedure? x := by
  cases y <;> rw [parameter] <;> split <;>
    simp only [SymbolTable.procedure?_setParameterRange, if_neg (Ne.symm hx),
      SymbolTable.procedure?_declareVariable]

theorem procedure?_parameter_none {o : Procedure} (hs : s.scope.isNew = true)
    (ho : s.symbols.procedure? s.scope.procedure = some o) :
    (s.parameter none).symbols.procedure? s.scope.procedure = some { o with
      firstParameter := s.symbols.variableCount, lastParameter := s.symbols.variableCount } := by
  rw [parameter, if_pos hs, SymbolTable.procedure?_setParameterRange, if_pos rfl, ho,
    Option.map_some]

/-- The parameter of a function that had none is in its range. -/
theorem parameter_some {o : Procedure} (h : s.symbols.Covered) (ht : s.symbols.Indexed)
    (hs : s.scope.isNew = true) (ho : s.symbols.procedure? s.scope.procedure = some o)
    (hempty : o.firstParameter = o.lastParameter) (y : Text) :
    (s.parameter (some y)).symbols.Covered ∧
      (s.parameter (some y)).symbols.procedure? s.scope.procedure = some { o with
        firstParameter := s.symbols.variableCount
        lastParameter := s.symbols.variableCount + 1 } := by
  obtain ⟨hcount, hcovered⟩ :=
    h.declareParameter ht ho hempty y integerType s.scope.level
  rw [parameter, if_pos hs]
  refine ⟨hcovered, ?_⟩
  rw [SymbolTable.procedure?_setParameterRange, if_pos rfl, SymbolTable.procedure?_declareVariable,
    ho, Option.map_some, hcount]

/-! ### Faults -/

theorem errors_prefix_perform (h : s.perform e = .ok t) : s.errors.toList <+: t.errors.toList := by
  cases he : e.isReach with
  | true =>
      cases e with
      | reach u =>
          obtain ⟨c, -, rfl⟩ := perform_reach h
          exact List.prefix_refl _
      | _ => cases he
  | false =>
      obtain ⟨u, hu, hgrows⟩ := s.perform_grows he
      cases h.symm.trans hu
      obtain ⟨new, hnew, -⟩ := hgrows.errors
      exact ⟨new, hnew.symm⟩

theorem errors_prefix_performAll (h : s.performAll es = .ok t) :
    s.errors.toList <+: t.errors.toList :=
  performAll_of_perform (fun _ => List.prefix_refl _) (fun _ _ _ h k => h.trans k)
    (fun _ _ _ _ h => errors_prefix_perform h) (fun _ _ => trivial) h

/-- A function that is entered without being reported as declared twice is new. -/
theorem findProcedure?_of_enter
    (h : ∀ d ∈ (s.enter f r).errors.toList, d.fault ≠ .scope (.duplicateFunction f)) :
    s.symbols.findProcedure? ⟨f, s.scope.level + 1, some s.scope.procedure⟩ = none := by
  refine Option.eq_none_iff_forall_ne_some.mpr fun q hq => ?_
  refine h ⟨.scope (.duplicateFunction f), s.cursor.line⟩ ?_ rfl
  simp [enter, SymbolTable.declareProcedure_of_some hq, Declared.isDuplicate, noteIf, note]

end Session

/-- Whether no function was declared twice, as far as some diagnostics tell. -/
def NoDuplicateFunction (ds : List (Diagnostic ProgramFault)) : Prop :=
  ∀ d ∈ ds, ∀ f, d.fault ≠ .scope (.duplicateFunction f)

namespace Parse

variable {p q a b : Parse} {o o' : Bool} {x : ProcId} {d : Diagnostic ProgramFault}
  {ts : List Token} {source : Text}

/-! ## Steps and headers -/

/-- In one step of a parse, the place of the parameter in the header of a procedure is read and the
parameter is reported missing. -/
structure MissesParameter (x : ProcId) (p q : Parse) (d : Diagnostic ProgramFault) : Prop where
  steps : p.Steps q
  goal : p.reading.goals.head? = some .parameter
  scope : p.session.scope.procedure = x
  fault : ∃ y, d.fault = .grammar (.missingParameter y)
  errors : q.session.errors = p.session.errors.push d

/-- What a step does to headers, which are open or not before and after it. -/
inductive HeaderStep (p q : Parse) : Bool → Bool → Prop
  | apart (h : p.session.symbols.SameHeaders q.session.symbols) : HeaderStep p q false false
  | expects (h : p.session.symbols.SameHeaders q.session.symbols)
      (hc : q.session.scope = p.session.scope) : HeaderStep p q true true
  | opens {f r : Text} (ht : q.session.symbols = (p.session.enter f r).symbols)
      (hc : q.session.scope = (p.session.enter f r).scope)
      (hnew : p.session.symbols.findProcedure?
        ⟨f, p.session.scope.level + 1, some p.session.scope.procedure⟩ = none) :
      HeaderStep p q false true
  | finds {y : Text} (ht : q.session.symbols = (p.session.parameter (some y)).symbols) :
      HeaderStep p q true false
  | misses (ht : q.session.symbols = (p.session.parameter none).symbols)
      (hd : ∃ d, MissesParameter p.session.scope.procedure p q d) : HeaderStep p q true false

theorem Steps.errors_prefix (h : p.Steps q) :
    p.session.errors.toList <+: q.session.errors.toList := by
  obtain ⟨es, -, hs⟩ := steps_iff.mp h
  exact Session.errors_prefix_performAll hs

theorem errors_prefix_of_reaches (h : ReflTransGen Steps p q) :
    p.session.errors.toList <+: q.session.errors.toList := by
  induction h with
  | refl => exact List.prefix_refl _
  | tail _ hstep ih => exact ih.trans hstep.errors_prefix

theorem noDuplicateFunction_of_reaches (h : ReflTransGen Steps p q)
    (hq : NoDuplicateFunction q.session.errors.toList) :
    NoDuplicateFunction p.session.errors.toList :=
  fun d hd => hq d ((errors_prefix_of_reaches h).mem hd)

/-- At the place of the parameter it is declared, or reported missing. -/
theorem Steps.parameter_cases (h : p.Steps q) {gs : List Goal}
    (hg : p.reading.goals = .parameter :: gs) : q.reading.goals = gs ∧
      ((∃ y, q.session.symbols = (p.session.parameter (some y)).symbols ∧
        q.session.errors = p.session.errors) ∨
      (q.session.symbols = (p.session.parameter none).symbols ∧
        ∃ d, MissesParameter p.session.scope.procedure p q d)) := by
  obtain ⟨es, hr, hs⟩ := steps_iff.mp h
  obtain ⟨⟨goals, ts⟩, s⟩ := p
  dsimp only at hg hr hs ⊢
  subst hg
  obtain ⟨hgoals, rfl | rfl⟩ := Reading.step_parameter hr
  · obtain ⟨u, hu, hs⟩ := Session.performAll_cons_eq_ok.mp hs
    obtain ⟨c, hc⟩ := Session.performAll_arrival hs
    cases hu
    exact ⟨hgoals, .inl ⟨_, by rw [hc], by rw [hc]; rfl⟩⟩
  · obtain ⟨u, hu, hs⟩ := Session.performAll_cons_eq_ok.mp hs
    obtain ⟨v, hv, hs⟩ := Session.performAll_cons_eq_ok.mp hs
    obtain ⟨c, hc⟩ := Session.performAll_arrival hs
    cases hu
    cases hv
    exact ⟨hgoals, .inr ⟨by rw [hc]; rfl, _, h, rfl, rfl, ⟨_, rfl⟩, by rw [hc]; rfl⟩⟩

/-- Every step goes on with the header that is open, or begins one, or has nothing to do with any. -/
theorem Steps.headerStep (h : p.Steps q) (hp : Heads o p.reading.goals)
    (hq : NoDuplicateFunction q.session.errors.toList) :
    ∃ o', Heads o' q.reading.goals ∧ HeaderStep p q o o' := by
  obtain ⟨es, hr, hs⟩ := steps_iff.mp h
  generalize hgoals : p.reading.goals = goals at hp
  have hreading : p.reading = ⟨goals, p.reading.tokens⟩ := hgoals ▸ rfl
  rw [hreading] at hr
  cases hp with
  | nil => cases hr
  | other hg hrest =>
      obtain ⟨⟨new, hnew, hnext⟩, hes⟩ := Reading.step_other hg hr
      exact ⟨false, hnext ▸ hnew.append hrest, .apart (Session.sameHeaders_performAll hes hs)⟩
  | @name r gs hrest =>
      obtain ⟨hnext, before, after, rfl, hes⟩ := Reading.step_name hr
      obtain ⟨u, hu, hs⟩ := Session.performAll_append_eq_ok.mp hs
      obtain ⟨v, hv, hs⟩ := Session.performAll_cons_eq_ok.mp hs
      cases hv
      obtain ⟨husymbols, huscope⟩ := Session.performAll_quiet (fun e he => hes e (by simp [he])) hu
      obtain ⟨hqsymbols, hqscope⟩ := Session.performAll_quiet (fun e he => hes e (by simp [he])) hs
      have hnew := Session.findProcedure?_of_enter fun d hd =>
        hq d ((Session.errors_prefix_performAll hs).mem hd) _
      rw [husymbols, huscope] at hnew
      have hsymbols : q.session.symbols =
          (p.session.enter (Grammar.lexeme p.reading.tokens) r).symbols := by
        simp only [hqsymbols, Session.enter, husymbols, huscope]
      refine ⟨true, hnext ▸ hrest, .opens hsymbols ?_ hnew⟩
      simp only [hqscope, Session.enter, husymbols, huscope]
  | expect hrest =>
      obtain ⟨hnext, hes⟩ := Reading.step_expect hr
      obtain ⟨hsymbols, hscope⟩ := Session.performAll_quiet hes hs
      exact ⟨true, hnext ▸ hrest, .expects (hsymbols ▸ .refl _) hscope⟩
  | parameter hrest =>
      obtain ⟨hnext, ⟨y, ht, -⟩ | ⟨ht, hd⟩⟩ := h.parameter_cases hgoals
      · exact ⟨false, hnext ▸ hrest, .finds ht⟩
      · exact ⟨false, hnext ▸ hrest, .misses ht hd⟩

/-! ## Ranges along a parse -/

/-- In a session the ranges account for the parameters: every parameter is in the range of its owner;
the range of an open header is still empty; and other ranges are empty only where the parameter was
reported missing. -/
structure Accounts (ts : List Token) (source : Text) (o : Bool) (p : Parse) : Prop where
  covered : p.session.symbols.Covered
  opened : o = true → p.session.scope.isNew = true ∧
    ∃ r, p.session.symbols.procedure? p.session.scope.procedure = some r ∧
      r.firstParameter = r.lastParameter
  missed : ∀ x r, x ≠ SymbolTable.root → p.session.symbols.procedure? x = some r →
    r.firstParameter = r.lastParameter → (o = true ∧ p.session.scope.procedure = x) ∨
      ∃ a b d, Reachable ts source a ∧ MissesParameter x a b d ∧ d ∈ p.session.errors.toList

theorem Reachable.tail (h : Reachable ts source p) (hpq : p.Steps q) : Reachable ts source q := by
  obtain ⟨p₀, hp₀, hreach⟩ := h
  exact ⟨p₀, hp₀, hreach.tail hpq⟩

theorem Reachable.indexed (h : Reachable ts source p) : p.session.symbols.Indexed := by
  obtain ⟨past, π, hmirrors⟩ := (Passes.reached h).exists_mirrors
  exact hmirrors.records.wellFormed.toIndexed

theorem Accounts.step (h : Accounts ts source o p) (hp : Reachable ts source p) (hpq : p.Steps q)
    (hstep : HeaderStep p q o o') : Accounts ts source o' q := by
  -- what was reported before the step is still among the faults
  have hmono : ∀ x, (∃ a b d, Reachable ts source a ∧ MissesParameter x a b d ∧
      d ∈ p.session.errors.toList) → ∃ a b d, Reachable ts source a ∧ MissesParameter x a b d ∧
      d ∈ q.session.errors.toList := fun x ⟨a, b, d, ha, hmisses, hd⟩ =>
    ⟨a, b, d, ha, hmisses, hpq.errors_prefix.mem hd⟩
  cases hstep with
  | apart hsame =>
      refine ⟨h.covered.of_sameHeaders hsame, nofun, fun x r hx hr hempty => .inr ?_⟩
      rw [hsame.procedure] at hr
      obtain ⟨⟨⟩, -⟩ | hmissed := h.missed x r hx hr hempty
      exact hmono x hmissed
  | expects hsame hscope =>
      refine ⟨h.covered.of_sameHeaders hsame, fun _ => ?_, fun x r hx hr hempty => ?_⟩
      · rw [hscope, hsame.procedure]
        exact h.opened rfl
      · rw [hsame.procedure] at hr
        rw [hscope]
        exact (h.missed x r hx hr hempty).imp_right (hmono x)
  | @opens f r ht hc hnew =>
      obtain ⟨hsame, hscope⟩ := Session.enter_new r hnew
      rw [← ht] at hsame
      rw [← hc] at hscope
      refine ⟨(h.covered.pushProcedure _).of_sameHeaders hsame, fun _ => ?_, fun x r hx hr hempty => ?_⟩
      · rw [hscope, hsame.procedure, SymbolTable.procedure?_pushProcedure, if_pos rfl]
        exact ⟨rfl, _, rfl, rfl⟩
      · rw [hscope]
        rw [hsame.procedure, SymbolTable.procedure?_pushProcedure] at hr
        split at hr
        · rename_i hxnew
          exact .inl ⟨rfl, hxnew.symm⟩
        · obtain ⟨⟨⟩, -⟩ | hmissed := h.missed x r hx hr hempty
          exact .inr (hmono x hmissed)
  | @finds y ht =>
      obtain ⟨hnew, r₀, hr₀, hempty₀⟩ := h.opened rfl
      obtain ⟨hcovered, hrange⟩ :=
        Session.parameter_some h.covered hp.indexed hnew hr₀ hempty₀ y
      refine ⟨ht ▸ hcovered, nofun, fun x r hx hr hempty => .inr ?_⟩
      rw [ht] at hr
      by_cases hxp : p.session.scope.procedure = x
      · subst hxp
        cases hrange.symm.trans hr
        simp at hempty
      · rw [Session.procedure?_parameter_of_ne hxp] at hr
        obtain ⟨-, rfl⟩ | hmissed := h.missed x r hx hr hempty
        · exact absurd rfl hxp
        · exact hmono x hmissed
  | misses ht hd =>
      obtain ⟨hnew, r₀, hr₀, hempty₀⟩ := h.opened rfl
      obtain ⟨d, hd⟩ := hd
      refine ⟨?_, nofun, fun x r hx hr hempty => .inr ?_⟩
      · rw [ht, Session.parameter, if_pos hnew]
        exact h.covered.setParameterRange hr₀ hempty₀ _ _
      · by_cases hxp : p.session.scope.procedure = x
        · exact ⟨p, q, d, hp, hxp ▸ hd, by rw [hd.errors]; simp⟩
        · rw [ht, Session.procedure?_parameter_of_ne hxp] at hr
          obtain ⟨-, rfl⟩ | hmissed := h.missed x r hx hr hempty
          · exact absurd rfl hxp
          · exact hmono x hmissed

theorem Reachable.accounts (h : Reachable ts source p)
    (hp : NoDuplicateFunction p.session.errors.toList) :
    ∃ o, Heads o p.reading.goals ∧ Accounts ts source o p := by
  obtain ⟨p₀, hp₀, hreach⟩ := h
  induction hreach with
  | refl =>
      obtain ⟨s, hs, rfl⟩ := start_eq_ok hp₀
      obtain ⟨c, rfl⟩ := Session.performAll_arrival hs
      refine ⟨false, heads_programGoals, .initial, nofun, fun x r hx hr hempty => ?_⟩
      obtain ⟨i⟩ := x
      cases i with
      | zero => exact absurd rfl hx
      | succ i => simp [Session.start, SymbolTable.initial, SymbolTable.procedure?] at hr
  | @tail q r hreach hstep ih =>
      obtain ⟨o, hheads, haccounts⟩ := ih (noDuplicateFunction_of_reaches (.single hstep) hp)
      obtain ⟨o', hheads', hheader⟩ := hstep.headerStep hheads hp
      exact ⟨o', hheads', haccounts.step ⟨p₀, hp₀, hreach⟩ hstep hheader⟩

/-- The range of a procedure stays what it is, unless its header is open. -/
theorem HeaderStep.procedure? {r : Procedure} (h : HeaderStep p q o o')
    (hr : p.session.symbols.procedure? x = some r) (hx : o = true → p.session.scope.procedure ≠ x) :
    q.session.symbols.procedure? x = some r ∧ (o' = true → q.session.scope.procedure ≠ x) := by
  cases h with
  | apart hsame => exact ⟨(hsame.procedure x).trans hr, nofun⟩
  | expects hsame hscope => exact ⟨(hsame.procedure x).trans hr, fun _ => hscope ▸ hx rfl⟩
  | @opens f type ht hc hnew =>
      obtain ⟨hsame, hscope⟩ := Session.enter_new type hnew
      have hne := SymbolTable.ne_new_of_procedure? hr
      refine ⟨?_, fun _ => ?_⟩
      · rw [ht, hsame.procedure, SymbolTable.procedure?_pushProcedure, if_neg hne, hr]
      · rw [hc, hscope]
        exact Ne.symm hne
  | finds ht => exact ⟨by rw [ht, Session.procedure?_parameter_of_ne (hx rfl), hr], nofun⟩
  | misses ht hd => exact ⟨by rw [ht, Session.procedure?_parameter_of_ne (hx rfl), hr], nofun⟩

theorem procedure?_of_reaches {r : Procedure} (h : ReflTransGen Steps p q)
    (hp : Heads false p.reading.goals) (hq : NoDuplicateFunction q.session.errors.toList)
    (hr : p.session.symbols.procedure? x = some r) : q.session.symbols.procedure? x = some r := by
  have hinv : ∃ o, Heads o q.reading.goals ∧ q.session.symbols.procedure? x = some r ∧
      (o = true → q.session.scope.procedure ≠ x) := by
    induction h with
    | refl => exact ⟨false, hp, hr, nofun⟩
    | tail _ hstep ih =>
        obtain ⟨o, hheads, hrange, hscope⟩ := ih (noDuplicateFunction_of_reaches (.single hstep) hq)
        obtain ⟨o', hheads', hheader⟩ := hstep.headerStep hheads hq
        exact ⟨o', hheads', hheader.procedure? hrange hscope⟩
  obtain ⟨-, -, hrange, -⟩ := hinv
  exact hrange

theorem steps_rightUnique : Relator.RightUnique Steps := by
  intro p q r hq hr
  cases hq.symm.trans hr
  rfl

/-- Every state of a parse that comes to its end lies before that. -/
theorem Reachable.reaches_last (h : Reachable ts source p) (hq : Reachable ts source q)
    (hlast : q.step = none) : ReflTransGen Steps p q := by
  obtain ⟨p₀, hp₀, hreach⟩ := h
  obtain ⟨q₀, hq₀, hreach'⟩ := hq
  cases hp₀.symm.trans hq₀
  rcases hreach.total_of_right_unique steps_rightUnique hreach' with h | h
  · exact h
  · rcases h.cases_head with rfl | ⟨r, hr, -⟩
    · exact .refl
    · cases hlast.symm.trans hr

/-- Where the parameter was reported missing, the range is empty from then on. -/
theorem MissesParameter.empty {r : Procedure} (h : MissesParameter x a b d)
    (ha : Reachable ts source a) (hp : Reachable ts source p) (hlast : p.step = none)
    (hdup : NoDuplicateFunction p.session.errors.toList)
    (hr : p.session.symbols.procedure? x = some r) : r.firstParameter = r.lastParameter := by
  have hreach := (ha.tail h.steps).reaches_last hp hlast
  obtain ⟨o, hheads, haccounts⟩ :=
    ha.accounts (noDuplicateFunction_of_reaches (.head h.steps hreach) hdup)
  obtain ⟨gs, hgs⟩ := List.head?_eq_some_iff.mp h.goal
  rw [hgs] at hheads
  cases hheads with
  | other hg => cases hg
  | parameter hrest =>
      obtain ⟨hgoals, ⟨y, -, herrors⟩ | ⟨ht, -⟩⟩ := h.steps.parameter_cases hgs
      · have hsize := congrArg Array.size (herrors.symm.trans h.errors)
        simp at hsize
      · obtain ⟨hnew, r₀, hr₀, -⟩ := haccounts.opened rfl
        have hrange := Session.procedure?_parameter_none hnew hr₀
        rw [← ht, h.scope] at hrange
        have hkept := procedure?_of_reaches hreach (hgoals ▸ hrest) hdup hrange
        cases hkept.symm.trans hr
        rfl

end Parse

/-! ## Ranges of an outcome -/

namespace Outcome

open SymbolTable (root)

theorem ranged_symbols {ts : List Token} {source : Text} {o : Outcome}
    (h : ofTokens ts source = .ok o) : o.symbols.Ranged := by
  obtain ⟨s, hs, rfl⟩ := ofTokens_eq_ok.mp h
  exact Session.ranged_performAll .initial (Session.start_mirrors source) hs

/-- Whatever faults are noted, the range of each procedure is empty or leads to the one row of a
parameter of its own. As long as no function is declared twice, every parameter is in the range of
its owner, and the range of a function is empty if and only if its parameter was reported missing in
its header. -/
theorem parameter_ranges {ts : List Token} {source : Text} {o : Outcome}
    (h : ofTokens ts source = .ok o) :
    (∀ p r, o.symbols.procedure? p = some r → o.symbols.RangeFits p r) ∧
    (NoDuplicateFunction o.errors →
      (∀ (i : Nat) (v : Variable), o.symbols.variableRows[i]? = some v → v.kind = .parameter →
        ∃ r, o.symbols.procedure? v.owner = some r ∧
          r.firstParameter ≤ i ∧ i < r.lastParameter) ∧
      ∀ p r, p ≠ root → o.symbols.procedure? p = some r →
        (r.firstParameter = r.lastParameter ↔
          ∃ a b d, Parse.Reachable (Token.significant ts) source a ∧
            Parse.MissesParameter p a b d ∧ d ∈ o.errors)) := by
  refine ⟨ranged_symbols h, ?_⟩
  intro hdup
  obtain ⟨q, hq, hlast, rfl⟩ := Parse.ofTokens_eq_ok_iff.mp h
  obtain ⟨o, hheads, haccounts⟩ := hq.accounts hdup
  rw [Parse.step_eq_none_iff.mp hlast] at hheads
  cases hheads
  refine ⟨haccounts.covered, fun p r hp hr => ⟨fun hempty => ?_, ?_⟩⟩
  · obtain ⟨⟨⟩, -⟩ | hmissed := haccounts.missed p r hp hr hempty
    exact hmissed
  · rintro ⟨a, b, d, ha, hmisses, -⟩
    exact hmisses.empty ha hq hlast hdup hr

/-- A function with a parameter, around one of the same name that has none. -/
theorem parameter_ranges_nested :
    let l := Lexed.ofSource Parse.nestedFunctions
    ∃ o, ofTokens l.tokens Parse.nestedFunctions = .ok o ∧ NoDuplicateFunction o.errors ∧
      (∃ v, o.symbols.variableRows[2]? = some v ∧ v.kind = .parameter ∧ v.owner = ⟨1⟩) ∧
      ∃ a b d, Parse.Reachable l.significant Parse.nestedFunctions a ∧
        Parse.MissesParameter ⟨2⟩ a b d ∧ d ∈ o.errors := by
  intro l
  have hrun : ((Parse.start l.significant Parse.nestedFunctions).toOption.bind
      (Parse.after 70)).map (fun p => (p.reading.goals, p.session.errors.toList.map (·.fault),
        p.session.symbols.procedureRows.toList.map fun r => (r.firstParameter, r.lastParameter))) =
      some ([], [.grammar (.missingParameter "7".toList), .scope (.undefinedVariable "y".toList)],
        [(0, 0), (2, 3), (4, 4)]) := by decide +kernel
  obtain ⟨p, hp, heq⟩ := Parse.exists_reachable_of_after hrun
  obtain ⟨hgoals, heq⟩ := Prod.mk.inj heq
  obtain ⟨hfaults, hranges⟩ := Prod.mk.inj heq
  have ho : ofTokens l.tokens Parse.nestedFunctions = .ok p.outcome :=
    Parse.ofTokens_eq_ok_iff.mpr ⟨p, hp, Parse.step_eq_none_iff.mpr hgoals, rfl⟩
  have hdup : NoDuplicateFunction p.outcome.errors := by
    intro d hd f hf
    have hmem := List.mem_map_of_mem (f := Diagnostic.fault) hd
    rw [Parse.outcome, hfaults, hf] at hmem
    simp at hmem
  have hrange : ∀ i, (p.outcome.symbols.procedure? ⟨i⟩).map
      (fun r => (r.firstParameter, r.lastParameter)) = [(0, 0), (2, 3), (4, 4)][i]? := by
    intro i
    rw [← hranges, List.getElem?_map, Array.getElem?_toList]
    rfl
  obtain ⟨hfits, hcovered⟩ := parameter_ranges ho
  obtain ⟨outer, houter, heq⟩ := Option.map_eq_some_iff.mp (hrange 1)
  obtain ⟨inner, hinner, heq'⟩ := Option.map_eq_some_iff.mp (hrange 2)
  obtain ⟨hfirst, hlast⟩ := Prod.mk.inj heq
  obtain ⟨hfirst', hlast'⟩ := Prod.mk.inj heq'
  refine ⟨_, ho, hdup, ?_, ?_⟩
  · obtain ⟨v, hv, hkind, howner, -⟩ := (hfits ⟨1⟩ outer houter).parameter 2 (by omega) (by omega)
    exact ⟨v, hv, hkind, howner⟩
  · exact ((hcovered hdup).2 ⟨2⟩ inner (by decide) hinner).mp (hfirst'.trans hlast'.symm)

end Outcome

end BlockLang
