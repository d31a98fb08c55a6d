import BlockLang.Symbol.Resolution
import Std.Data.TreeMap.Lemmas

/-!
# Well-formed symbol tables

The index of a symbol table finds exactly the rows, procedures are nested below the main procedure,
and variables belong to procedures. Declarations that respect the nesting keep it so.
-/

namespace BlockLang

namespace SymbolTable

def key? (t : SymbolTable) (q : ProcId) : Option ProcKey := (t.procedure? q).map Procedure.key

/-- The identities of a table lead to the rows that have them. -/
structure Indexed (t : SymbolTable) : Prop where
  findProcedure?_iff : ∀ k q, t.findProcedure? k = some q ↔ t.key? q = some k
  variableIndex_iff : ∀ (k : VarKey) (i : Nat),
    t.variableIndex[k]? = some i ↔ ∃ v : Variable, t.variableRows[i]? = some v ∧ v.key = k
  index_eq : ∀ (i : Nat) (v : Variable), t.variableRows[i]? = some v → v.index = i

/-- Every procedure but the main one is one level below an earlier one, and every variable is on the
level of its owner. -/
structure Nested (t : SymbolTable) : Prop where
  main : ∃ m, t.key? root = some m ∧ m.parent = none ∧ m.level = 0
  inside : ∀ q k, t.key? q = some k → q ≠ root → ∃ r m, k.parent = some r ∧ t.key? r = some m ∧
    r.index < q.index ∧ k.level = m.level + 1
  owned : ∀ v ∈ t.variableRows, ∃ k, t.key? v.owner = some k ∧ k.level = v.level

structure WellFormed (t : SymbolTable) : Prop extends Indexed t, Nested t

variable {t : SymbolTable}

theorem exists_procedure_of_key? {q : ProcId} {k : ProcKey} (h : t.key? q = some k) :
    ∃ r, t.procedure? q = some r ∧ r.key = k := Option.map_eq_some_iff.mp h

theorem key?_of_procedure {q : ProcId} {r : Procedure} (h : t.procedure? q = some r) :
    t.key? q = some r.key := Option.map_eq_some_iff.mpr ⟨r, h, rfl⟩

/-! ## Declarations -/

def pushProcedure (t : SymbolTable) (p : Procedure) : SymbolTable :=
  { t with
    procedureRows := t.procedureRows.push p
    procedureIndex := t.procedureIndex.insert p.key ⟨t.procedureRows.size⟩ }

def pushVariable (t : SymbolTable) (v : Variable) : SymbolTable :=
  { t with
    variableRows := t.variableRows.push v
    variableIndex := t.variableIndex.insert v.key v.index }

theorem declareProcedure_of_some {name : Text} {level : Nat} {parent q : ProcId}
    (h : t.findProcedure? ⟨name, level, some parent⟩ = some q) (type : Text) :
    t.declareProcedure name type level parent = (.duplicate q, t) := by
  simp [declareProcedure, Procedure.key, h]

theorem declareProcedure_of_none {name : Text} {level : Nat} {parent : ProcId}
    (h : t.findProcedure? ⟨name, level, some parent⟩ = none) (type : Text) :
    t.declareProcedure name type level parent =
      (.new ⟨t.procedureRows.size⟩, t.pushProcedure ⟨name, type, level, 0, 0, some parent⟩) := by
  simp [declareProcedure, Procedure.key, h, pushProcedure]

theorem declareVariable_of_some {name : Text} {owner : ProcId} {kind : VarKind} {level i : Nat}
    (h : t.variableIndex[(⟨name, owner, kind, level⟩ : VarKey)]? = some i) (type : Text) :
    t.declareVariable name owner kind type level = (.duplicate i, t) := by
  simp [declareVariable, Variable.key, h]

theorem declareVariable_of_none {name : Text} {owner : ProcId} {kind : VarKind} {level : Nat}
    (h : t.variableIndex[(⟨name, owner, kind, level⟩ : VarKey)]? = none) (type : Text) :
    t.declareVariable name owner kind type level = (.new t.variableRows.size,
      t.pushVariable ⟨name, owner, kind, type, level, t.variableRows.size⟩) := by
  simp [declareVariable, Variable.key, h, pushVariable]

/-! ## Rows -/

theorem key?_pushProcedure (t : SymbolTable) (p : Procedure) (q : ProcId) :
    (t.pushProcedure p).key? q =
      if q = ⟨t.procedureRows.size⟩ then some p.key else t.key? q := by
  obtain ⟨i⟩ := q
  simp only [key?, procedure?, pushProcedure, Array.getElem?_push, ProcId.mk.injEq]
  split <;> rfl

theorem ne_new_of_key? {q : ProcId} {k : ProcKey} (h : t.key? q = some k) :
    q ≠ ⟨t.procedureRows.size⟩ := by
  rintro rfl
  simp [key?, procedure?] at h

theorem key?_pushProcedure_of_some {q : ProcId} {k : ProcKey} (h : t.key? q = some k)
    (p : Procedure) : (t.pushProcedure p).key? q = some k := by
  rw [key?_pushProcedure, if_neg (ne_new_of_key? h), h]

theorem index_lt_of_key? {q : ProcId} {k : ProcKey} (h : t.key? q = some k) :
    q.index < t.procedureRows.size := by
  obtain ⟨p, hp, -⟩ := Option.map_eq_some_iff.mp h
  exact (Array.getElem?_eq_some_iff.mp hp).1

theorem procedure?_pushProcedure (t : SymbolTable) (f : Procedure) (q : ProcId) :
    (t.pushProcedure f).procedure? q =
      if q = ⟨t.procedureRows.size⟩ then some f else t.procedure? q := by
  obtain ⟨i⟩ := q
  simp only [procedure?, pushProcedure, Array.getElem?_push, ProcId.mk.injEq]

theorem ne_new_of_procedure? {q : ProcId} {r : Procedure} (h : t.procedure? q = some r) :
    q ≠ ⟨t.procedureRows.size⟩ := ne_new_of_key? (key?_of_procedure h)

theorem procedure?_pushProcedure_of_some {q : ProcId} {r : Procedure} (h : t.procedure? q = some r)
    (f : Procedure) : (t.pushProcedure f).procedure? q = some r := by
  rw [procedure?_pushProcedure, if_neg (ne_new_of_procedure? h), h]

@[simp] theorem key?_pushVariable (t : SymbolTable) (v : Variable) (q : ProcId) :
    (t.pushVariable v).key? q = t.key? q := rfl

/-- Recording a range changes no identity. -/
@[simp] theorem key?_setParameterRange (t : SymbolTable) (p q : ProcId) (first last : Nat) :
    (t.setParameterRange p first last).key? q = t.key? q := by
  simp only [key?, procedure?, setParameterRange, Array.getElem?_modify]
  split
  · cases t.procedureRows[q.index]? <;> rfl
  · rfl

theorem procedure?_setParameterRange (t : SymbolTable) (p q : ProcId) (first last : Nat) :
    (t.setParameterRange p first last).procedure? q =
      if q = p then (t.procedure? q).map fun r =>
        { r with firstParameter := first, lastParameter := last }
      else t.procedure? q := by
  obtain ⟨i⟩ := p
  obtain ⟨j⟩ := q
  simp only [procedure?, setParameterRange, Array.getElem?_modify, ProcId.mk.injEq, eq_comm]

theorem findProcedure?_pushProcedure (t : SymbolTable) (p : Procedure) (k : ProcKey) :
    (t.pushProcedure p).findProcedure? k =
      if p.key = k then some ⟨t.procedureRows.size⟩ else t.findProcedure? k := by
  simp [findProcedure?, pushProcedure, Std.TreeMap.getElem?_insert]

theorem variableIndex_pushVariable (t : SymbolTable) (v : Variable) (k : VarKey) :
    (t.pushVariable v).variableIndex[k]? =
      if v.key = k then some v.index else t.variableIndex[k]? := by
  simp [pushVariable, Std.TreeMap.getElem?_insert]

theorem variableRows_pushVariable (t : SymbolTable) (v : Variable) (i : Nat) :
    (t.pushVariable v).variableRows[i]? =
      if i = t.variableRows.size then some v else t.variableRows[i]? := by
  simp [pushVariable, Array.getElem?_push]

theorem variableRows_pushVariable_of_some {i : Nat} {w : Variable} (h : t.variableRows[i]? = some w)
    (v : Variable) : (t.pushVariable v).variableRows[i]? = some w := by
  have hlt := (Array.getElem?_eq_some_iff.mp h).1
  rw [variableRows_pushVariable, if_neg (Nat.ne_of_lt hlt), h]

/-! ## Indexed tables -/

theorem Indexed.pushProcedure (h : t.Indexed) {p : Procedure}
    (hp : t.findProcedure? p.key = none) : (t.pushProcedure p).Indexed where
  findProcedure?_iff k q := by
    rw [findProcedure?_pushProcedure, key?_pushProcedure]
    by_cases hk : p.key = k
    · subst hk
      rw [if_pos rfl]
      constructor
      · rintro ⟨rfl⟩
        rw [if_pos rfl]
      · intro hq
        split at hq
        · rename_i hnew
          rw [hnew]
        · have := (h.findProcedure?_iff _ _).mpr hq
          simp [hp] at this
    · rw [if_neg hk, h.findProcedure?_iff]
      constructor
      · intro hq
        rw [if_neg (ne_new_of_key? hq), hq]
      · intro hq
        split at hq
        · cases hq
          exact absurd rfl hk
        · exact hq
  variableIndex_iff := h.variableIndex_iff
  index_eq := h.index_eq

theorem Indexed.pushVariable (h : t.Indexed) {v : Variable} (hv : t.variableIndex[v.key]? = none)
    (hi : v.index = t.variableRows.size) : (t.pushVariable v).Indexed where
  findProcedure?_iff := h.findProcedure?_iff
  variableIndex_iff k i := by
    simp only [variableIndex_pushVariable, variableRows_pushVariable]
    by_cases hk : v.key = k
    · subst hk
      rw [if_pos rfl, hi]
      constructor
      · rintro ⟨rfl⟩
        exact ⟨v, by simp⟩
      · rintro ⟨w, hw, hkey⟩
        split at hw
        · rename_i hq
          rw [hq]
        · have := (h.variableIndex_iff _ _).mpr ⟨w, hw, hkey⟩
          simp [hv] at this
    · rw [if_neg hk, h.variableIndex_iff]
      constructor
      · rintro ⟨w, hw, hkey⟩
        have hne : i ≠ t.variableRows.size := by
          rintro rfl
          simp at hw
        exact ⟨w, by rw [if_neg hne, hw], hkey⟩
      · rintro ⟨w, hw, hkey⟩
        split at hw
        · cases hw
          exact absurd hkey hk
        · exact ⟨w, hw, hkey⟩
  index_eq i w hw := by
    rw [variableRows_pushVariable] at hw
    split at hw
    · rename_i hq
      cases hw
      rw [hi, hq]
    · exact h.index_eq i w hw

theorem Indexed.setParameterRange (h : t.Indexed) (p : ProcId) (first last : Nat) :
    (t.setParameterRange p first last).Indexed where
  findProcedure?_iff k q := by
    rw [key?_setParameterRange]
    exact h.findProcedure?_iff k q
  variableIndex_iff := h.variableIndex_iff
  index_eq := h.index_eq

/-! ## Nested tables -/

theorem Nested.pushProcedure (h : t.Nested) {p : Procedure} {r : ProcId} {m : ProcKey}
    (hr : p.parent = some r) (hm : t.key? r = some m) (hl : p.level = m.level + 1) :
    (t.pushProcedure p).Nested where
  main := by
    obtain ⟨m, hm, hmain⟩ := h.main
    exact ⟨m, key?_pushProcedure_of_some hm p, hmain⟩
  inside q k hq hne := by
    rw [key?_pushProcedure] at hq
    split at hq
    · rename_i hnew
      cases hq
      exact ⟨r, m, hr, key?_pushProcedure_of_some hm p, hnew ▸ index_lt_of_key? hm, hl⟩
    · obtain ⟨r', m', hr', hm', hrest⟩ := h.inside q k hq hne
      exact ⟨r', m', hr', key?_pushProcedure_of_some hm' p, hrest⟩
  owned v hv := by
    obtain ⟨k, hk, hl⟩ := h.owned v hv
    exact ⟨k, key?_pushProcedure_of_some hk p, hl⟩

theorem Nested.pushVariable (h : t.Nested) {v : Variable} {k : ProcKey}
    (hk : t.key? v.owner = some k) (hl : k.level = v.level) : (t.pushVariable v).Nested where
  main := h.main
  inside := h.inside
  owned w hw := by
    rcases Array.mem_push.mp hw with hw | rfl
    · exact h.owned w hw
    · exact ⟨k, hk, hl⟩

/-- What has a parent is not the main procedure. -/
theorem Nested.of_parent (h : t.Nested) {p q : ProcId} {k : ProcKey} (hq : t.key? q = some k)
    (hparent : k.parent = some p) :
    ∃ m, t.key? p = some m ∧ p.index < q.index ∧ k.level = m.level + 1 := by
  have hne : q ≠ root := by
    rintro rfl
    obtain ⟨m, hm, hnone, -⟩ := h.main
    cases hm.symm.trans hq
    simp [hnone] at hparent
  obtain ⟨r, m, hr, hm, hrest⟩ := h.inside q k hq hne
  cases hparent.symm.trans hr
  exact ⟨m, hm, hrest⟩

/-! ## Well-formed tables -/

theorem initial_wellFormed : initial.WellFormed where
  toIndexed := by
    -- the initial table is an empty one to which the main procedure was added
    have hempty : Indexed ⟨#[], Std.TreeMap.empty, #[], Std.TreeMap.empty⟩ :=
      ⟨by simp [findProcedure?, key?, procedure?], by simp, by simp⟩
    exact Indexed.pushProcedure (p := mainProcedure) hempty (by simp [findProcedure?])
  main := ⟨mainProcedure.key, rfl, rfl, rfl⟩
  inside := by
    intro q k hq hne
    obtain ⟨i⟩ := q
    cases i with
    | zero => exact absurd rfl hne
    | succ i => simp [initial, key?, procedure?] at hq
  owned := by simp [initial]

theorem WellFormed.setParameterRange (h : t.WellFormed) (p : ProcId) (first last : Nat) :
    (t.setParameterRange p first last).WellFormed where
  toIndexed := h.toIndexed.setParameterRange p first last
  main := by simpa using h.main
  inside := by simpa using h.inside
  owned := by
    intro v hv
    simpa using h.owned v hv

/-- A procedure that is declared one level below its parent. -/
theorem WellFormed.declareProcedure (h : t.WellFormed) {parent : ProcId} {m : ProcKey}
    (hm : t.key? parent = some m) (name type : Text) :
    (t.declareProcedure name type (m.level + 1) parent).2.WellFormed := by
  cases hf : t.findProcedure? ⟨name, m.level + 1, some parent⟩ with
  | some q =>
      rw [declareProcedure_of_some hf]
      exact h
  | none =>
      rw [declareProcedure_of_none hf]
      exact ⟨h.toIndexed.pushProcedure hf, h.toNested.pushProcedure rfl hm rfl⟩

/-- A variable that is declared on the level of its owner. -/
theorem WellFormed.declareVariable (h : t.WellFormed) {owner : ProcId} {m : ProcKey}
    (hm : t.key? owner = some m) (name : Text) (kind : VarKind) (type : Text) :
    (t.declareVariable name owner kind type m.level).2.WellFormed := by
  cases hf : t.variableIndex[(⟨name, owner, kind, m.level⟩ : VarKey)]? with
  | some i =>
      rw [declareVariable_of_some hf]
      exact h
  | none =>
      rw [declareVariable_of_none hf]
      exact ⟨h.toIndexed.pushVariable hf rfl, h.toNested.pushVariable hm rfl⟩

/-! ## Sound tables -/

/-- The rows of a table, told by themselves: procedures are nested below the main one, variables
belong to procedures, and nothing is there twice. -/
structure Sound (t : SymbolTable) : Prop where
  main : ∃ m, t.procedure? root = some m ∧ m.level = 0 ∧ m.parent = none
  inside : ∀ q r, t.procedure? q = some r → q ≠ root → ∃ p o, r.parent = some p ∧
    t.procedure? p = some o ∧ p.index < q.index ∧ r.level = o.level + 1
  procedure_unique : ∀ p q r r', t.procedure? p = some r → t.procedure? q = some r' →
    r.name = r'.name → r.level = r'.level → r.parent = r'.parent → p = q
  owned : ∀ v ∈ t.variableRows, ∃ o, t.procedure? v.owner = some o ∧ v.level = o.level
  index_eq : ∀ (i : Nat) (v : Variable), t.variableRows[i]? = some v → v.index = i
  variable_unique : ∀ (i j : Nat) (v w : Variable), t.variableRows[i]? = some v →
    t.variableRows[j]? = some w → v.name = w.name → v.owner = w.owner → v.kind = w.kind →
    v.level = w.level → i = j

theorem WellFormed.sound (h : t.WellFormed) : t.Sound where
  main := by
    obtain ⟨k, hk, hparent, hlevel⟩ := h.main
    obtain ⟨m, hm, rfl⟩ := exists_procedure_of_key? hk
    exact ⟨m, hm, hlevel, hparent⟩
  inside q r hr hne := by
    obtain ⟨p, k, hparent, hk, hlt, hlevel⟩ := h.inside q r.key (key?_of_procedure hr) hne
    obtain ⟨o, ho, rfl⟩ := exists_procedure_of_key? hk
    exact ⟨p, o, hparent, ho, hlt, hlevel⟩
  procedure_unique p q r r' hr hr' hname hlevel hparent := by
    have hkey : r.key = r'.key := by simp [Procedure.key, hname, hlevel, hparent]
    have hp := (h.findProcedure?_iff r.key p).mpr (key?_of_procedure hr)
    have hq := (h.findProcedure?_iff r'.key q).mpr (key?_of_procedure hr')
    rw [hkey, hq] at hp
    exact (Option.some.inj hp).symm
  owned v hv := by
    obtain ⟨k, hk, hlevel⟩ := h.owned v hv
    obtain ⟨o, ho, rfl⟩ := exists_procedure_of_key? hk
    exact ⟨o, ho, hlevel.symm⟩
  index_eq := h.index_eq
  variable_unique i j v w hv hw hname howner hkind hlevel := by
    have hkey : v.key = w.key := by simp [Variable.key, hname, howner, hkind, hlevel]
    have hi := (h.variableIndex_iff v.key i).mpr ⟨v, hv, rfl⟩
    have hj := (h.variableIndex_iff w.key j).mpr ⟨w, hw, rfl⟩
    rw [hkey, hj] at hi
    exact (Option.some.inj hi).symm

end SymbolTable

end BlockLang
