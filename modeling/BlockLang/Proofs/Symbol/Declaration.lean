import BlockLang.Proofs.Symbol.Lookup

/-!
# Declarations along a path

What a declaration in a procedure of a given path adds to a well-formed table, and when it is a
duplicate.
-/

namespace BlockLang

namespace SymbolTable

variable {t t' : SymbolTable} {p q : ProcId} {π ρ : List Text}

/-- The procedure of a path has a variable of a kind. -/
def Has (t : SymbolTable) (x : Text) (kind : VarKind) (π : List Text) : Prop :=
  ∃ v ∈ t.variableRows, v.name = x ∧ v.kind = kind ∧ t.HasPath v.owner π

theorem hasPath_congr (h : ∀ q, t'.key? q = t.key? q) : t'.HasPath q π ↔ t.HasPath q π :=
  ⟨Extends.hasPath fun q _ hk => (h q).symm.trans hk, Extends.hasPath fun q _ hk => (h q).trans hk⟩

/-! ## Paths -/

theorem hasPath_setParameterRange (t : SymbolTable) (p : ProcId) (first last : Nat) :
    (t.setParameterRange p first last).HasPath q π ↔ t.HasPath q π :=
  hasPath_congr fun q => key?_setParameterRange t p q first last

theorem extends_declareProcedure (t : SymbolTable) (f type : Text) (level : Nat) (p : ProcId) :
    (t.declareProcedure f type level p).2.Extends t := by
  cases hf : t.findProcedure? ⟨f, level, some p⟩ with
  | some q =>
      rw [declareProcedure_of_some hf]
      exact fun _ _ hk => hk
  | none =>
      rw [declareProcedure_of_none hf]
      exact fun _ _ hk => key?_pushProcedure_of_some hk _

theorem hasPath_declareVariable (t : SymbolTable) (x : Text) (p : ProcId) (kind : VarKind)
    (type : Text) (level : Nat) :
    (t.declareVariable x p kind type level).2.HasPath q π ↔ t.HasPath q π := by
  refine hasPath_congr fun q => ?_
  cases hf : t.variableIndex[(⟨x, p, kind, level⟩ : VarKey)]? with
  | some i => rw [declareVariable_of_some hf]
  | none => rw [declareVariable_of_none hf, key?_pushVariable]

namespace WellFormed

theorem isSome_resolveVariable?_iff_has (h : t.WellFormed) (hp : t.HasPath p π) (x : Text) :
    (t.resolveVariable? x p π.length).isSome ↔
      ∃ σ, σ <:+ π ∧ (t.Has x .localVar σ ∨ t.Has x .parameter σ) := by
  rw [h.isSome_resolveVariable?_iff hp]
  constructor
  · rintro ⟨σ, hσ, v, hv, hx, ho⟩
    cases hk : v.kind with
    | localVar => exact ⟨σ, hσ, .inl ⟨v, hv, hx, hk, ho⟩⟩
    | parameter => exact ⟨σ, hσ, .inr ⟨v, hv, hx, hk, ho⟩⟩
  · rintro ⟨σ, hσ, ⟨v, hv, hx, -, ho⟩ | ⟨v, hv, hx, -, ho⟩⟩ <;> exact ⟨σ, hσ, v, hv, hx, ho⟩

/-! ## Variables -/

theorem has_iff (h : t.WellFormed) (hp : t.HasPath p π) (x : Text) (kind : VarKind) :
    t.Has x kind π ↔ ∃ i, t.variableIndex[(⟨x, p, kind, π.length⟩ : VarKey)]? = some i := by
  rw [h.exists_variableIndex_iff]
  constructor
  · rintro ⟨v, hv, rfl, rfl, ho⟩
    obtain rfl := h.eq_of_hasPath ho hp
    exact ⟨v, hv, by simp [Variable.key, h.level_eq_of_owner hp hv rfl]⟩
  · rintro ⟨v, hv, hk⟩
    have ho : v.owner = p := congrArg VarKey.owner hk
    exact ⟨v, hv, congrArg VarKey.name hk, congrArg VarKey.kind hk, ho ▸ hp⟩

theorem isDuplicate_declareVariable_iff (h : t.WellFormed) (hp : t.HasPath p π) (x : Text)
    (kind : VarKind) (type : Text) :
    (t.declareVariable x p kind type π.length).1.isDuplicate = true ↔ t.Has x kind π := by
  rw [h.has_iff hp]
  cases hf : t.variableIndex[(⟨x, p, kind, π.length⟩ : VarKey)]? with
  | some i => simp [declareVariable_of_some hf, Declared.isDuplicate]
  | none => simp [declareVariable_of_none hf, Declared.isDuplicate]

/-- A declared variable is there, and all that was there before. -/
theorem has_declareVariable_iff (h : t.WellFormed) (hp : t.HasPath p π) (x : Text)
    (kind : VarKind) (type : Text) (y : Text) (k : VarKind) :
    (t.declareVariable x p kind type π.length).2.Has y k ρ ↔
      t.Has y k ρ ∨ (y = x ∧ k = kind ∧ ρ = π) := by
  cases hf : t.variableIndex[(⟨x, p, kind, π.length⟩ : VarKey)]? with
  | some i =>
      have hhas : t.Has x kind π := (h.has_iff hp x kind).mpr ⟨i, hf⟩
      rw [declareVariable_of_some hf]
      constructor
      · exact .inl
      · rintro (hy | ⟨rfl, rfl, rfl⟩)
        · exact hy
        · exact hhas
  | none =>
      have hpath : ∀ q σ, (t.pushVariable
          ⟨x, p, kind, type, π.length, t.variableRows.size⟩).HasPath q σ ↔ t.HasPath q σ :=
        fun q σ => hasPath_congr fun q => key?_pushVariable ..
      rw [declareVariable_of_none hf]
      simp only [Has, hpath]
      constructor
      · rintro ⟨v, hv, rfl, rfl, ho⟩
        rcases Array.mem_push.mp hv with hv | rfl
        · exact .inl ⟨v, hv, rfl, rfl, ho⟩
        · exact .inr ⟨rfl, rfl, h.hasPath_unique ho hp⟩
      · rintro (⟨v, hv, hy, hk, ho⟩ | ⟨rfl, rfl, rfl⟩)
        · exact ⟨v, Array.mem_push.mpr (.inl hv), hy, hk, ho⟩
        · exact ⟨_, Array.mem_push.mpr (.inr rfl), rfl, rfl, hp⟩

theorem declareVariable_of_hasPath (h : t.WellFormed) (hp : t.HasPath p π) (x : Text)
    (kind : VarKind) (type : Text) : (t.declareVariable x p kind type π.length).2.WellFormed := by
  obtain ⟨k, hk, hl⟩ := h.level_eq hp
  rw [← hl]
  exact h.declareVariable hk x kind type

/-! ## Functions -/

theorem isDuplicate_declareProcedure_iff (h : t.WellFormed) (hp : t.HasPath p π) (f type : Text) :
    (t.declareProcedure f type (π.length + 1) p).1.isDuplicate = true ↔
      ∃ q, t.HasPath q (f :: π) := by
  rw [← h.isSome_findProcedure?_iff hp]
  cases hf : t.findProcedure? ⟨f, π.length + 1, some p⟩ with
  | some q => simp [declareProcedure_of_some hf, Declared.isDuplicate]
  | none => simp [declareProcedure_of_none hf, Declared.isDuplicate]

theorem declareProcedure_of_hasPath (h : t.WellFormed) (hp : t.HasPath p π) (f type : Text) :
    (t.declareProcedure f type (π.length + 1) p).2.WellFormed := by
  obtain ⟨k, hk, hl⟩ := h.level_eq hp
  rw [← hl]
  exact h.declareProcedure hk f type

/-- The entry of a declared function has the path of the declaration, be it new or not. -/
theorem hasPath_entry_declareProcedure (h : t.WellFormed) (hp : t.HasPath p π) (f type : Text) :
    (t.declareProcedure f type (π.length + 1) p).2.HasPath
      (t.declareProcedure f type (π.length + 1) p).1.entry (f :: π) := by
  have hext := extends_declareProcedure t f type (π.length + 1) p
  cases hf : t.findProcedure? ⟨f, π.length + 1, some p⟩ with
  | some q =>
      rw [declareProcedure_of_some hf]
      exact .inside ((h.findProcedure?_iff _ q).mp hf) rfl hp
  | none =>
      rw [declareProcedure_of_none hf] at hext ⊢
      refine .inside (k := ⟨f, π.length + 1, some p⟩) ?_ rfl (hext.hasPath hp)
      rw [Declared.entry, key?_pushProcedure, if_pos rfl]
      rfl

/-- A declared function is there, and all that were there before. -/
theorem exists_hasPath_declareProcedure_iff (h : t.WellFormed) (hp : t.HasPath p π)
    (f type : Text) : (∃ q, (t.declareProcedure f type (π.length + 1) p).2.HasPath q ρ) ↔
      (∃ q, t.HasPath q ρ) ∨ ρ = f :: π := by
  have hext := extends_declareProcedure t f type (π.length + 1) p
  have hentry := h.hasPath_entry_declareProcedure hp f type
  have hwf := h.declareProcedure_of_hasPath hp f type
  constructor
  · rintro ⟨q, hq⟩
    obtain ⟨k, hk, -⟩ := hwf.level_eq hq
    cases hf : t.findProcedure? ⟨f, π.length + 1, some p⟩ with
    | some r =>
        rw [declareProcedure_of_some hf] at hq
        exact .inl ⟨q, hq⟩
    | none =>
        rw [declareProcedure_of_none hf] at hq hk hext hentry hwf
        rw [key?_pushProcedure] at hk
        split at hk
        · rename_i hnew
          rw [hnew] at hq
          exact .inr (hwf.hasPath_unique hq hentry)
        · exact .inl ⟨q, (hext.hasPath_iff h hwf hk).mp hq⟩
  · rintro (⟨q, hq⟩ | rfl)
    · exact ⟨q, hext.hasPath hq⟩
    · exact ⟨_, hentry⟩

/-- A declared function brings no variables with it. -/
theorem has_declareProcedure_iff (h : t.WellFormed) (hp : t.HasPath p π) (f type : Text)
    (y : Text) (k : VarKind) :
    (t.declareProcedure f type (π.length + 1) p).2.Has y k ρ ↔ t.Has y k ρ := by
  have hext := extends_declareProcedure t f type (π.length + 1) p
  have hwf := h.declareProcedure_of_hasPath hp f type
  have hrows : (t.declareProcedure f type (π.length + 1) p).2.variableRows = t.variableRows := by
    cases hf : t.findProcedure? ⟨f, π.length + 1, some p⟩ with
    | some q => rw [declareProcedure_of_some hf]
    | none => rw [declareProcedure_of_none hf]; rfl
  simp only [Has, hrows]
  constructor
  · rintro ⟨v, hv, hy, hk, ho⟩
    obtain ⟨k', hk', -⟩ := h.owned v hv
    exact ⟨v, hv, hy, hk, (hext.hasPath_iff h hwf hk').mp ho⟩
  · rintro ⟨v, hv, hy, hk, ho⟩
    exact ⟨v, hv, hy, hk, hext.hasPath ho⟩

end WellFormed

end SymbolTable

end BlockLang
