import BlockLang.Proofs.Analysis.Reachability
import BlockLang.Proofs.Grammar.Declared

/-!
# Counting entries

A table holds no other names than those that were declared, and no more entries than there were
declarations. With the tokens of a program, its names and its size are known, whatever faults the
program has.
-/

namespace BlockLang

open Grammar (Event eventsOf)

namespace SymbolTable

/-- The names in a table have a property, and there are not more than `m` functions and `n`
variables. -/
structure Census (P : Text → Prop) (m n : Nat) (t : SymbolTable) : Prop where
  procedureNames : ∀ p ∈ t.procedureRows, P p.name ∧ P p.returnType
  variableNames : ∀ v ∈ t.variableRows, P v.name
  procedureCount : t.procedureRows.size ≤ m + 1
  variableCount : t.variableCount ≤ n

variable {P : Text → Prop} {m n : Nat} {t : SymbolTable}

namespace Census

theorem mono {m' n' : Nat} (h : t.Census P m n) (hm : m ≤ m') (hn : n ≤ n') : t.Census P m' n' where
  procedureNames := h.procedureNames
  variableNames := h.variableNames
  procedureCount := Nat.le_trans h.procedureCount (Nat.succ_le_succ hm)
  variableCount := Nat.le_trans h.variableCount hn

theorem initial (hname : P mainProcedure.name) (htype : P mainProcedure.returnType) :
    SymbolTable.initial.Census P 0 0 where
  procedureNames p hp := by
    obtain rfl : p = mainProcedure := by simpa [SymbolTable.initial] using hp
    exact ⟨hname, htype⟩
  variableNames v hv := by simp [SymbolTable.initial] at hv
  procedureCount := Nat.le_refl _
  variableCount := Nat.le_refl _

theorem declareProcedure (h : t.Census P m n) {name type : Text} (hname : P name) (htype : P type)
    (level : Nat) (parent : ProcId) :
    (t.declareProcedure name type level parent).2.Census P (m + 1) n := by
  cases hf : t.findProcedure? ⟨name, level, some parent⟩ with
  | some q =>
      rw [declareProcedure_of_some hf]
      exact h.mono (Nat.le_succ m) (Nat.le_refl n)
  | none =>
      rw [declareProcedure_of_none hf]
      refine ⟨fun p hp => ?_, h.variableNames, ?_, h.variableCount⟩
      · rcases Array.mem_push.mp hp with hp | rfl
        · exact h.procedureNames p hp
        · exact ⟨hname, htype⟩
      · exact Nat.le_trans (Nat.le_of_eq (Array.size_push ..)) (Nat.succ_le_succ h.procedureCount)

theorem declareVariable (h : t.Census P m n) {name : Text} (hname : P name) (owner : ProcId)
    (kind : VarKind) (type : Text) (level : Nat) :
    (t.declareVariable name owner kind type level).2.Census P m (n + 1) := by
  cases hf : t.variableIndex[(⟨name, owner, kind, level⟩ : VarKey)]? with
  | some i =>
      rw [declareVariable_of_some hf]
      exact h.mono (Nat.le_refl m) (Nat.le_succ n)
  | none =>
      rw [declareVariable_of_none hf]
      refine ⟨h.procedureNames, fun v hv => ?_, h.procedureCount, ?_⟩
      · rcases Array.mem_push.mp hv with hv | rfl
        · exact h.variableNames v hv
        · exact hname
      · exact Nat.le_trans (Nat.le_of_eq (Array.size_push ..)) (Nat.succ_le_succ h.variableCount)

theorem setParameterRange (h : t.Census P m n) (p : ProcId) (first last : Nat) :
    (t.setParameterRange p first last).Census P m n where
  procedureNames q hq := by
    obtain ⟨i, hi⟩ := Array.getElem?_of_mem hq
    have hrow := procedure?_setParameterRange t p ⟨i⟩ first last
    rw [show (t.setParameterRange p first last).procedure? ⟨i⟩ = some q from hi] at hrow
    split at hrow
    · obtain ⟨r, hr, rfl⟩ := Option.map_eq_some_iff.mp hrow.symm
      exact h.procedureNames r (Array.mem_of_getElem? hr)
    · exact h.procedureNames q (Array.mem_of_getElem? hrow.symm)
  variableNames := h.variableNames
  procedureCount := Nat.le_trans (Nat.le_of_eq (Array.size_modify ..)) h.procedureCount
  variableCount := h.variableCount

end Census

/-- No procedure is further inside than there are procedures before it. -/
theorem Sound.level_le (h : t.Sound) {p : ProcId} {r : Procedure} (hr : t.procedure? p = some r) :
    r.level ≤ p.index := by
  generalize hi : p.index = i
  induction i using Nat.strongRecOn generalizing p r with
  | _ i ih =>
      by_cases hp : p = root
      · obtain ⟨m, hm, hlevel, -⟩ := h.main
        subst hp
        cases hm.symm.trans hr
        exact hlevel ▸ Nat.zero_le _
      · obtain ⟨q, o, -, ho, hlt, hlevel⟩ := h.inside p r hr hp
        have hle := ih q.index (hi ▸ hlt) ho rfl
        omega

end SymbolTable

/-! ## Sessions -/

namespace Session

variable {P : Text → Prop} {n : Nat} {s t : Session} {e : Event} {es : List Event}

theorem census_enter (h : s.symbols.Census P n n) {f r : Text} (hf : P f) (hr : P r) :
    (s.enter f r).symbols.Census P (n + 1) (n + 1) := by
  have hprocedure := h.declareProcedure hf hr (s.scope.level + 1) s.scope.procedure
  exact hprocedure.declareVariable hf _ .localVar r (s.scope.level + 1)

theorem census_parameter (h : s.symbols.Census P n n) {x : Option Text} (hx : ∀ y ∈ x, P y) :
    (s.parameter x).symbols.Census P n (n + x.toList.length) := by
  cases x with
  | none =>
      rw [parameter]
      split
      · exact h.setParameterRange ..
      · exact h
  | some y =>
      have hvariable := h.declareVariable (hx y rfl) s.scope.procedure .parameter integerType
        s.scope.level
      rw [parameter]
      split
      · exact hvariable.setParameterRange ..
      · exact hvariable

theorem census_perform (h : s.symbols.Census P n n) (he : ∀ x ∈ e.declared, P x)
    (ht : s.perform e = .ok t) :
    t.symbols.Census P (n + if e.declares then 1 else 0) (n + if e.declares then 1 else 0) := by
  cases e with
  | reach u =>
      obtain ⟨c, -, rfl⟩ := perform_reach ht
      exact h
  | report f => cases ht; exact h
  | declare x =>
      cases ht
      have hvariable := h.declareVariable (he x (by simp [Event.declared])) s.scope.procedure
        .localVar integerType s.scope.level
      rw [declare_eq, symbols_noteIf]
      exact hvariable.mono (Nat.le_succ n) (Nat.le_refl _)
  | use x => cases ht; rw [use, symbols_noteIf]; exact h
  | call f => cases ht; rw [call, symbols_noteIf]; exact h
  | enter f r =>
      cases ht
      exact census_enter h (he f (by simp [Event.declared])) (he r (by simp [Event.declared]))
  | parameter x =>
      cases ht
      have hparameter := census_parameter h fun y (hy : y ∈ x) => he y <| by
        simpa [Event.declared] using hy
      cases x with
      | none => exact hparameter
      | some y => exact hparameter.mono (Nat.le_succ n) (Nat.le_refl _)
  | leave => cases ht; rw [symbols_leave]; exact h

theorem census_performAll (h : s.symbols.Census P n n) (hes : ∀ e ∈ es, ∀ x ∈ e.declared, P x)
    (ht : s.performAll es = .ok t) :
    t.symbols.Census P (n + es.countP Event.declares) (n + es.countP Event.declares) := by
  induction es generalizing s n with
  | nil =>
      cases ht
      exact h
  | cons e es ih =>
      rw [List.forall_mem_cons] at hes
      obtain ⟨u, hu, ht⟩ := performAll_cons_eq_ok.mp ht
      have hrest := ih (census_perform h hes.1 hu) hes.2 ht
      rwa [List.countP_cons, Nat.add_comm (es.countP _), ← Nat.add_assoc]

end Session

/-! ## Outcomes -/

/-- The names in the table of an outcome are lexemes of the program, empty, or those of the main
procedure, and there are no more entries of a kind than tokens. -/
theorem Outcome.census {P : Text → Prop} {ts : List Token} {source : Text} {o : Outcome}
    (ho : ofTokens ts source = .ok o) (h : ∀ t ∈ Token.significant ts, P t.lexeme) (h₀ : P [])
    (hname : P SymbolTable.mainProcedure.name) (htype : P SymbolTable.mainProcedure.returnType) :
    o.symbols.Census P (Token.significant ts).length (Token.significant ts).length := by
  obtain ⟨s, hs, rfl⟩ := ofTokens_eq_ok.mp ho
  have hcensus := Session.census_performAll (s := Session.start source)
    (.initial hname htype) (Grammar.declared_eventsOf h h₀) hs
  have hcount := Grammar.countP_declares_eventsOf (Token.significant ts)
  rw [Nat.zero_add] at hcensus
  exact hcensus.mono hcount hcount

end BlockLang
