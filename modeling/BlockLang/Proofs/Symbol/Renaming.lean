import BlockLang.Proofs.Symbol.WellFormed
import Mathlib.Logic.Function.Basic

/-!
# Renamed symbol tables

A symbol table asks of a name only whether it is the same as another one. So what is declared and
looked up under other names comes to the same positions, as long as different names stay different.
The main procedure keeps its name.
-/

namespace BlockLang

/-! ## Renamed entries -/

/-- The main procedure, which has no parent, keeps its name. -/
def Procedure.rename (r : Text → Text) (p : Procedure) : Procedure :=
  if p.parent.isSome then { p with name := r p.name } else p

def Variable.rename (r : Text → Text) (v : Variable) : Variable := { v with name := r v.name }

def ProcKey.rename (r : Text → Text) (k : ProcKey) : ProcKey :=
  if k.parent.isSome then { k with name := r k.name } else k

def VarKey.rename (r : Text → Text) (k : VarKey) : VarKey := { k with name := r k.name }

variable {r : Text → Text}

@[simp] theorem Procedure.parent_rename (p : Procedure) : (p.rename r).parent = p.parent := by
  unfold Procedure.rename
  split <;> rfl

@[simp] theorem Procedure.level_rename (p : Procedure) : (p.rename r).level = p.level := by
  unfold Procedure.rename
  split <;> rfl

@[simp] theorem Procedure.key_rename (p : Procedure) : (p.rename r).key = p.key.rename r := by
  cases hp : p.parent <;> simp [Procedure.rename, ProcKey.rename, Procedure.key, hp]

theorem Procedure.rename_range (p : Procedure) (first last : Nat) :
    Procedure.rename r { p with firstParameter := first, lastParameter := last } =
      { p.rename r with firstParameter := first, lastParameter := last } := by
  unfold Procedure.rename
  split <;> rfl

@[simp] theorem Variable.key_rename (v : Variable) : (v.rename r).key = v.key.rename r := rfl

@[simp] theorem Variable.index_rename (v : Variable) : (v.rename r).index = v.index := rfl

@[simp] theorem Procedure.rename_inside (x type : Text) (level first last : Nat) (p : ProcId) :
    Procedure.rename r ⟨x, type, level, first, last, some p⟩ =
      ⟨r x, type, level, first, last, some p⟩ := rfl

@[simp] theorem ProcKey.rename_inside (x : Text) (level : Nat) (p : ProcId) :
    ProcKey.rename r ⟨x, level, some p⟩ = ⟨r x, level, some p⟩ := rfl

theorem ProcKey.rename_injective (hr : r.Injective) : (ProcKey.rename r).Injective := by
  intro k m h
  obtain ⟨x, l, p⟩ := k
  obtain ⟨y, m, q⟩ := m
  cases p <;> cases q <;> simp_all [ProcKey.rename, hr.eq_iff]

theorem VarKey.rename_injective (hr : r.Injective) : (VarKey.rename r).Injective := by
  intro k m h
  obtain ⟨x, p, kind, l⟩ := k
  obtain ⟨y, q, kind', m⟩ := m
  simp_all [VarKey.rename, hr.eq_iff]

/-! ## Renamed tables -/

namespace SymbolTable

/-- A table has the entries of another one under new names, at the same positions. -/
structure Renamed (r : Text → Text) (t u : SymbolTable) : Prop where
  procedureRows : u.procedureRows = t.procedureRows.map (Procedure.rename r)
  variableRows : u.variableRows = t.variableRows.map (Variable.rename r)
  findProcedure? : ∀ k, u.findProcedure? (k.rename r) = t.findProcedure? k
  variableIndex : ∀ k : VarKey, u.variableIndex[k.rename r]? = t.variableIndex[k]?

variable {t u : SymbolTable}

theorem Renamed.size_procedureRows (h : t.Renamed r u) :
    u.procedureRows.size = t.procedureRows.size := by
  rw [h.procedureRows, Array.size_map]

theorem Renamed.variableCount_eq (h : t.Renamed r u) : u.variableCount = t.variableCount := by
  rw [variableCount, h.variableRows, Array.size_map, variableCount]

theorem Renamed.procedure?_eq (h : t.Renamed r u) (p : ProcId) :
    u.procedure? p = (t.procedure? p).map (Procedure.rename r) := by
  rw [procedure?, h.procedureRows, Array.getElem?_map, procedure?]

/-! ## Declarations -/

theorem Renamed.pushProcedure (hr : r.Injective) (h : t.Renamed r u) (p : Procedure) :
    (t.pushProcedure p).Renamed r (u.pushProcedure (p.rename r)) where
  procedureRows := by
    simp only [SymbolTable.pushProcedure, h.procedureRows, Array.map_push]
  variableRows := h.variableRows
  findProcedure? k := by
    rw [findProcedure?_pushProcedure, findProcedure?_pushProcedure, Procedure.key_rename,
      h.findProcedure?, h.size_procedureRows]
    simp only [(ProcKey.rename_injective hr).eq_iff]
  variableIndex := h.variableIndex

theorem Renamed.pushVariable (hr : r.Injective) (h : t.Renamed r u) (v : Variable) :
    (t.pushVariable v).Renamed r (u.pushVariable (v.rename r)) where
  procedureRows := h.procedureRows
  variableRows := by
    simp only [SymbolTable.pushVariable, h.variableRows, Array.map_push]
  findProcedure? := h.findProcedure?
  variableIndex k := by
    rw [variableIndex_pushVariable, variableIndex_pushVariable, Variable.key_rename,
      h.variableIndex, Variable.index_rename]
    simp only [(VarKey.rename_injective hr).eq_iff]

/-- The main procedure is there under its own name. -/
theorem renamed_initial (hr : r.Injective) : initial.Renamed r initial := by
  have hempty : Renamed r ⟨#[], Std.TreeMap.empty, #[], Std.TreeMap.empty⟩
      ⟨#[], Std.TreeMap.empty, #[], Std.TreeMap.empty⟩ :=
    ⟨by simp, by simp, by simp [SymbolTable.findProcedure?], by simp⟩
  exact hempty.pushProcedure hr mainProcedure

/-- A declaration under a new name is answered in the same way. -/
theorem Renamed.declareProcedure (hr : r.Injective) (h : t.Renamed r u) (f type : Text)
    (level : Nat) (p : ProcId) :
    (u.declareProcedure (r f) type level p).1 = (t.declareProcedure f type level p).1 ∧
      (t.declareProcedure f type level p).2.Renamed r
        (u.declareProcedure (r f) type level p).2 := by
  have hfind := h.findProcedure? ⟨f, level, some p⟩
  rw [ProcKey.rename_inside] at hfind
  cases ht : t.findProcedure? ⟨f, level, some p⟩ with
  | some q =>
      rw [declareProcedure_of_some ht, declareProcedure_of_some (hfind.trans ht)]
      exact ⟨rfl, h⟩
  | none =>
      rw [declareProcedure_of_none ht, declareProcedure_of_none (hfind.trans ht)]
      rw [h.size_procedureRows]
      exact ⟨rfl, h.pushProcedure hr ⟨f, type, level, 0, 0, some p⟩⟩

theorem Renamed.declareVariable (hr : r.Injective) (h : t.Renamed r u) (x : Text) (p : ProcId)
    (kind : VarKind) (type : Text) (level : Nat) :
    (u.declareVariable (r x) p kind type level).1 = (t.declareVariable x p kind type level).1 ∧
      (t.declareVariable x p kind type level).2.Renamed r
        (u.declareVariable (r x) p kind type level).2 := by
  have hfind : u.variableIndex[(⟨r x, p, kind, level⟩ : VarKey)]? = _ :=
    h.variableIndex ⟨x, p, kind, level⟩
  have hcount : u.variableRows.size = t.variableRows.size := h.variableCount_eq
  cases ht : t.variableIndex[(⟨x, p, kind, level⟩ : VarKey)]? with
  | some i =>
      rw [declareVariable_of_some ht, declareVariable_of_some (hfind.trans ht)]
      exact ⟨rfl, h⟩
  | none =>
      rw [declareVariable_of_none ht, declareVariable_of_none (hfind.trans ht), hcount]
      exact ⟨rfl, h.pushVariable hr ⟨x, p, kind, type, level, t.variableRows.size⟩⟩

theorem Renamed.setParameterRange (h : t.Renamed r u) (p : ProcId) (first last : Nat) :
    (t.setParameterRange p first last).Renamed r (u.setParameterRange p first last) where
  procedureRows := by
    refine Array.ext_getElem? fun i => ?_
    simp only [SymbolTable.setParameterRange, h.procedureRows, Array.getElem?_modify,
      Array.getElem?_map]
    split
    · cases t.procedureRows[i]? with
      | none => rfl
      | some q => exact congrArg some (q.rename_range first last).symm
    · rfl
  variableRows := h.variableRows
  findProcedure? := h.findProcedure?
  variableIndex := h.variableIndex

/-! ## Resolution -/

theorem Renamed.ancestry_eq (h : t.Renamed r u) (n : Nat) (p : ProcId) :
    u.ancestry n p = t.ancestry n p := by
  induction n generalizing p with
  | zero => rfl
  | succ n ih =>
      have hparent : (u.procedure? p).bind (·.parent) = (t.procedure? p).bind (·.parent) := by
        rw [h.procedure?_eq]
        cases t.procedure? p <;> simp
      rw [ancestry, ancestry, hparent]
      cases (t.procedure? p).bind (·.parent) with
      | none => rfl
      | some q => exact congrArg (p :: ·) (ih q)

theorem Renamed.findVariable?_eq (h : t.Renamed r u) (k : VarKey) :
    u.findVariable? (k.rename r) = (t.findVariable? k).map (Variable.rename r) := by
  rw [findVariable?, findVariable?, h.variableIndex, h.variableRows]
  cases t.variableIndex[k]? with
  | none => rfl
  | some i => exact Array.getElem?_map

theorem Renamed.ownVariable?_eq (h : t.Renamed r u) (x : Text) (p : ProcId) (level : Nat) :
    u.ownVariable? (r x) p level = (t.ownVariable? x p level).map (Variable.rename r) := by
  have hlocal := h.findVariable?_eq ⟨x, p, .localVar, level⟩
  have hparameter := h.findVariable?_eq ⟨x, p, .parameter, level⟩
  simp only [VarKey.rename] at hlocal hparameter
  rw [ownVariable?, ownVariable?, hlocal, hparameter]
  cases t.findVariable? ⟨x, p, .localVar, level⟩ <;> rfl

theorem Renamed.firstVariable?_eq (h : t.Renamed r u) (x : Text) (ps : List ProcId) (level : Nat) :
    u.firstVariable? (r x) ps level = (t.firstVariable? x ps level).map (Variable.rename r) := by
  induction ps generalizing level with
  | nil => cases level <;> rfl
  | cons p ps ih =>
      cases level with
      | zero =>
          simp only [firstVariable?, h.ownVariable?_eq]
          cases t.ownVariable? x p 0 <;> rfl
      | succ l =>
          simp only [firstVariable?, h.ownVariable?_eq, ih l]
          cases t.ownVariable? x p (l + 1) <;> rfl

/-- A name stands for the same variable, which has the new name. -/
theorem Renamed.resolveVariable?_eq (h : t.Renamed r u) (x : Text) (p : ProcId) (level : Nat) :
    u.resolveVariable? (r x) p level = (t.resolveVariable? x p level).map (Variable.rename r) := by
  rw [resolveVariable?, enclosing, h.ancestry_eq]
  exact h.firstVariable?_eq x _ level

theorem Renamed.ownProcedure?_eq (h : t.Renamed r u) (f : Text) (p : ProcId) :
    u.ownProcedure? (r f) p = t.ownProcedure? f p := by
  rw [ownProcedure?, ownProcedure?, h.procedure?_eq]
  cases t.procedure? p with
  | none => rfl
  | some q =>
      have hfind := h.findProcedure? ⟨f, q.level + 1, some p⟩
      rw [ProcKey.rename_inside] at hfind
      simpa using hfind

/-- A name stands for the same function. -/
theorem Renamed.resolveProcedure?_eq (h : t.Renamed r u) (f : Text) (p : ProcId) :
    u.resolveProcedure? (r f) p = t.resolveProcedure? f p := by
  have hown : u.ownProcedure? (r f) = t.ownProcedure? f := funext (h.ownProcedure?_eq f)
  rw [resolveProcedure?, resolveProcedure?, enclosing, enclosing, h.ancestry_eq, hown]

end SymbolTable

end BlockLang
