import BlockLang.Proofs.Symbol.WellFormed

/-!
# Ranges of parameters

A procedure keeps the positions of the variables that are its parameters. Positions stay what they
are when a table grows, so that a range has to be right only when it is recorded.
-/

namespace BlockLang.SymbolTable

/-- The range of a procedure is empty or holds one row, which is that of a parameter of the procedure
on its level. -/
structure RangeFits (t : SymbolTable) (p : ProcId) (r : Procedure) : Prop where
  width : r.lastParameter = r.firstParameter ∨ r.lastParameter = r.firstParameter + 1
  within : r.lastParameter ≤ t.variableCount
  parameter : ∀ i, r.firstParameter ≤ i → i < r.lastParameter →
    ∃ v, t.variableRows[i]? = some v ∧ v.kind = .parameter ∧ v.owner = p ∧ v.level = r.level

/-- All ranges of a table are right. -/
def Ranged (t : SymbolTable) : Prop := ∀ p r, t.procedure? p = some r → t.RangeFits p r

/-- Every parameter is in the range of its owner. -/
def Covered (t : SymbolTable) : Prop :=
  ∀ i v, t.variableRows[i]? = some v → v.kind = .parameter →
    ∃ r, t.procedure? v.owner = some r ∧ r.firstParameter ≤ i ∧ i < r.lastParameter

/-- Two tables have the same procedures, with their ranges, and the second has no other parameters
than the first. -/
structure SameHeaders (t u : SymbolTable) : Prop where
  procedure : ∀ q, u.procedure? q = t.procedure? q
  parameter : ∀ (i : Nat) (v : Variable), u.variableRows[i]? = some v → v.kind = .parameter →
    t.variableRows[i]? = some v

variable {t u : SymbolTable} {p q : ProcId} {r : Procedure} {f : Procedure} {v : Variable}

/-! ## Procedures -/

@[simp] theorem procedure?_pushVariable (t : SymbolTable) (v : Variable) (q : ProcId) :
    (t.pushVariable v).procedure? q = t.procedure? q := rfl

theorem procedure?_declareVariable (t : SymbolTable) (name : Text) (owner : ProcId) (kind : VarKind)
    (type : Text) (level : Nat) (q : ProcId) :
    (t.declareVariable name owner kind type level).2.procedure? q = t.procedure? q := by
  cases hf : t.variableIndex[(⟨name, owner, kind, level⟩ : VarKey)]? with
  | some i => rw [declareVariable_of_some hf]
  | none => rw [declareVariable_of_none hf, procedure?_pushVariable]

@[simp] theorem variableRows_setParameterRange (t : SymbolTable) (p : ProcId) (first last : Nat) :
    (t.setParameterRange p first last).variableRows = t.variableRows := rfl

/-! ## Growing tables -/

theorem variableCount_pushVariable (t : SymbolTable) (v : Variable) :
    (t.pushVariable v).variableCount = t.variableCount + 1 := Array.size_push ..

theorem RangeFits.pushVariable (h : t.RangeFits p r) (v : Variable) :
    (t.pushVariable v).RangeFits p r where
  width := h.width
  within := by
    rw [variableCount_pushVariable]
    exact Nat.le_succ_of_le h.within
  parameter i hfirst hlast := by
    obtain ⟨w, hw, hparameter⟩ := h.parameter i hfirst hlast
    exact ⟨w, variableRows_pushVariable_of_some hw v, hparameter⟩

namespace Ranged

theorem initial : SymbolTable.initial.Ranged := by
  rintro ⟨i⟩ r hr
  cases i with
  | zero =>
      cases hr
      exact ⟨.inl rfl, Nat.le_refl _, fun i _ hi => absurd hi (Nat.not_lt_zero i)⟩
  | succ i => simp [SymbolTable.initial, procedure?] at hr

theorem pushProcedure (h : t.Ranged) (hf : f.firstParameter = 0 ∧ f.lastParameter = 0) :
    (t.pushProcedure f).Ranged := by
  intro q r hr
  rw [procedure?_pushProcedure] at hr
  split at hr
  · cases hr
    refine ⟨.inl (hf.2.trans hf.1.symm), hf.2 ▸ Nat.zero_le _, fun i _ hi => ?_⟩
    exact absurd (hf.2 ▸ hi) (Nat.not_lt_zero i)
  · exact ⟨(h q r hr).width, (h q r hr).within, (h q r hr).parameter⟩

theorem pushVariable (h : t.Ranged) (v : Variable) : (t.pushVariable v).Ranged :=
  fun q r hr => (h q r hr).pushVariable v

theorem setParameterRange (h : t.Ranged) {first last : Nat}
    (hp : ∀ r, t.procedure? p = some r →
      t.RangeFits p { r with firstParameter := first, lastParameter := last }) :
    (t.setParameterRange p first last).Ranged := by
  intro q r hr
  rw [procedure?_setParameterRange] at hr
  split at hr
  · rename_i hq
    subst hq
    obtain ⟨o, ho, rfl⟩ := Option.map_eq_some_iff.mp hr
    exact ⟨(hp o ho).width, (hp o ho).within, (hp o ho).parameter⟩
  · exact ⟨(h q r hr).width, (h q r hr).within, (h q r hr).parameter⟩

theorem declareProcedure (h : t.Ranged) (name type : Text) (level : Nat) (parent : ProcId) :
    (t.declareProcedure name type level parent).2.Ranged := by
  cases hf : t.findProcedure? ⟨name, level, some parent⟩ with
  | some q => rwa [declareProcedure_of_some hf]
  | none =>
      rw [declareProcedure_of_none hf]
      exact h.pushProcedure ⟨rfl, rfl⟩

theorem declareVariable (h : t.Ranged) (name : Text) (owner : ProcId) (kind : VarKind) (type : Text)
    (level : Nat) : (t.declareVariable name owner kind type level).2.Ranged := by
  cases hf : t.variableIndex[(⟨name, owner, kind, level⟩ : VarKey)]? with
  | some i => rwa [declareVariable_of_some hf]
  | none =>
      rw [declareVariable_of_none hf]
      exact h.pushVariable _

/-- The range between the numbers of variables before and after the declaration of a parameter is
right, whether the parameter is new or not. -/
theorem declareParameter (h : t.Ranged) (hp : t.procedure? p = some r) (name type : Text) :
    let u := (t.declareVariable name p .parameter type r.level).2
    (u.setParameterRange p t.variableCount u.variableCount).Ranged := by
  intro u
  refine (h.declareVariable name p .parameter type r.level).setParameterRange fun o ho => ?_
  simp only [u] at ho ⊢
  cases hf : t.variableIndex[(⟨name, p, .parameter, r.level⟩ : VarKey)]? with
  | some i =>
      rw [declareVariable_of_some hf]
      exact ⟨.inl rfl, Nat.le_refl _, fun i hfirst hlast => absurd hlast (Nat.not_lt_of_le hfirst)⟩
  | none =>
      rw [declareVariable_of_none hf] at ho ⊢
      cases hp.symm.trans ho
      rw [variableCount_pushVariable]
      refine ⟨.inr rfl, Nat.le_of_eq (variableCount_pushVariable ..).symm, fun i hfirst hlast => ?_⟩
      obtain rfl : i = t.variableRows.size := Nat.le_antisymm (Nat.le_of_lt_succ hlast) hfirst
      exact ⟨_, by rw [variableRows_pushVariable, if_pos rfl], rfl, rfl, rfl⟩

end Ranged

/-! ## Parameters in ranges -/

theorem SameHeaders.refl (t : SymbolTable) : t.SameHeaders t := ⟨fun _ => rfl, fun _ _ h _ => h⟩

theorem SameHeaders.trans {w : SymbolTable} (h : t.SameHeaders u) (k : u.SameHeaders w) :
    t.SameHeaders w where
  procedure q := (k.procedure q).trans (h.procedure q)
  parameter i v hv hkind := h.parameter i v (k.parameter i v hv hkind) hkind

theorem sameHeaders_declareVariable (t : SymbolTable) (name : Text) (owner : ProcId) (type : Text)
    (level : Nat) : t.SameHeaders (t.declareVariable name owner .localVar type level).2 := by
  cases hf : t.variableIndex[(⟨name, owner, .localVar, level⟩ : VarKey)]? with
  | some i =>
      rw [declareVariable_of_some hf]
      exact .refl t
  | none =>
      rw [declareVariable_of_none hf]
      refine ⟨fun _ => rfl, fun i v hv hkind => ?_⟩
      rw [variableRows_pushVariable] at hv
      split at hv
      · cases hv
        cases hkind
      · exact hv

namespace Covered

theorem initial : SymbolTable.initial.Covered := fun i v hv => by simp [SymbolTable.initial] at hv

theorem of_sameHeaders (h : t.Covered) (htu : t.SameHeaders u) : u.Covered := by
  intro i v hv hkind
  rw [htu.procedure]
  exact h i v (htu.parameter i v hv hkind) hkind

theorem pushProcedure (h : t.Covered) (f : Procedure) : (t.pushProcedure f).Covered := by
  intro i v hv hkind
  obtain ⟨r, hr, hrange⟩ := h i v hv hkind
  exact ⟨r, procedure?_pushProcedure_of_some hr f, hrange⟩

/-- A procedure whose range is empty has no parameter. -/
theorem owner_ne (h : t.Covered) (hp : t.procedure? p = some r)
    (hr : r.firstParameter = r.lastParameter) {i : Nat} (hv : t.variableRows[i]? = some v)
    (hkind : v.kind = .parameter) : v.owner ≠ p := by
  rintro rfl
  obtain ⟨o, ho, hfirst, hlast⟩ := h i v hv hkind
  cases hp.symm.trans ho
  omega

/-- The range of a procedure that has no parameter can be recorded anew. -/
theorem setParameterRange (h : t.Covered) (hp : t.procedure? p = some r)
    (hr : r.firstParameter = r.lastParameter) (first last : Nat) :
    (t.setParameterRange p first last).Covered := by
  intro i v hv hkind
  rw [procedure?_setParameterRange, if_neg (h.owner_ne hp hr hv hkind)]
  exact h i v hv hkind

/-- The parameter of a procedure that had none is new, and it is in the range between the numbers of
variables before and after its declaration. -/
theorem declareParameter (h : t.Covered) (ht : t.Indexed) (hp : t.procedure? p = some r)
    (hr : r.firstParameter = r.lastParameter) (name type : Text) (level : Nat) :
    let u := (t.declareVariable name p .parameter type level).2
    u.variableCount = t.variableCount + 1 ∧
      (u.setParameterRange p t.variableCount u.variableCount).Covered := by
  intro u
  have hnew : t.variableIndex[(⟨name, p, .parameter, level⟩ : VarKey)]? = none := by
    refine Option.eq_none_iff_forall_ne_some.mpr fun i hi => ?_
    obtain ⟨v, hv, hkey⟩ := (ht.variableIndex_iff _ i).mp hi
    exact h.owner_ne hp hr hv (congrArg VarKey.kind hkey) (congrArg VarKey.owner hkey)
  simp only [u, declareVariable_of_none hnew]
  refine ⟨variableCount_pushVariable .., fun i v hv hkind => ?_⟩
  rw [procedure?_setParameterRange, procedure?_pushVariable, variableCount_pushVariable]
  rw [variableRows_setParameterRange, variableRows_pushVariable] at hv
  split at hv
  · rename_i hi
    cases hv
    exact ⟨_, by rw [if_pos rfl, hp, Option.map_some], Nat.le_of_eq hi.symm,
      Nat.lt_succ_of_le (Nat.le_of_eq hi)⟩
  · rw [if_neg (h.owner_ne hp hr hv hkind)]
    exact h i v hv hkind

end Covered

end BlockLang.SymbolTable
