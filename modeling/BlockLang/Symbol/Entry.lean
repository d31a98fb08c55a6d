import BlockLang.Text.Blank
import Std.Data.TreeMap.Basic

/-!
# Procedures and variables

The entries of a symbol table. An entry is told from others by part of what it records: a procedure
by its name, level and parent; a variable by its name, owner, kind and level. Types and table
positions take no part in this.
-/

namespace BlockLang

/-- The handle of a procedure: its position in the table. -/
structure ProcId where
  index : Nat
  deriving DecidableEq, Repr

/-- A declared function, or the main procedure. -/
structure Procedure where
  name : Text
  returnType : Text
  /-- The nesting depth; that of the main procedure is 0. -/
  level : Nat
  /-- The number of variables before the parameter was declared. -/
  firstParameter : Nat
  /-- The number of variables after the parameter was declared. -/
  lastParameter : Nat
  /-- The procedure that directly encloses this one. -/
  parent : Option ProcId
  deriving DecidableEq, Repr

/-- What a variable is to its owner. -/
inductive VarKind where
  | localVar
  | parameter
  deriving DecidableEq, Repr

/-- A local variable, a parameter, or the slot for the result of a function. -/
structure Variable where
  name : Text
  owner : ProcId
  kind : VarKind
  type : Text
  level : Nat
  /-- The position in the table. -/
  index : Nat
  deriving DecidableEq, Repr

/-- The number of the kind in the variable table. -/
def VarKind.code : VarKind → Nat
  | .localVar => 0
  | .parameter => 1

/-! ## Identity -/

/-- What tells a procedure from all others. -/
structure ProcKey where
  name : Text
  level : Nat
  parent : Option ProcId
  deriving DecidableEq, Repr

/-- What tells a variable from all others. -/
structure VarKey where
  name : Text
  owner : ProcId
  kind : VarKind
  level : Nat
  deriving DecidableEq, Repr

def Procedure.key (p : Procedure) : ProcKey := ⟨p.name, p.level, p.parent⟩

def Variable.key (v : Variable) : VarKey := ⟨v.name, v.owner, v.kind, v.level⟩

/-- Orders identities of procedures by name, level and parent. -/
def ProcKey.order : ProcKey → ProcKey → Ordering :=
  compareLex (compareOn ProcKey.name)
    (compareLex (compareOn ProcKey.level) (compareOn fun k => k.parent.map ProcId.index))

def VarKey.order : VarKey → VarKey → Ordering :=
  compareLex (compareOn VarKey.name)
    (compareLex (compareOn fun k => k.owner.index)
      (compareLex (compareOn fun k => k.kind.code) (compareOn VarKey.level)))

instance : Std.TransCmp ProcKey.order :=
  inferInstanceAs (Std.TransCmp (compareLex _ _))

instance : Std.TransCmp VarKey.order :=
  inferInstanceAs (Std.TransCmp (compareLex _ _))

theorem ProcKey.eq_of_order {a b : ProcKey} (h : ProcKey.order a b = .eq) : a = b := by
  obtain ⟨_, _, p⟩ := a
  obtain ⟨_, _, q⟩ := b
  simp only [ProcKey.order, compareLex_eq_eq, compareOn, Std.compare_eq_iff_eq] at h
  obtain ⟨rfl, rfl, hp⟩ := h
  have : p = q := by
    rcases p with _ | ⟨⟨_⟩⟩ <;> rcases q with _ | ⟨⟨_⟩⟩ <;> simp_all
  rw [this]

theorem VarKey.eq_of_order {a b : VarKey} (h : VarKey.order a b = .eq) : a = b := by
  obtain ⟨_, ⟨_⟩, k, _⟩ := a
  obtain ⟨_, ⟨_⟩, j, _⟩ := b
  simp only [VarKey.order, compareLex_eq_eq, compareOn, Std.compare_eq_iff_eq] at h
  obtain ⟨rfl, rfl, hk, rfl⟩ := h
  cases k <;> cases j <;> simp_all [VarKind.code]

instance : Std.LawfulEqCmp ProcKey.order where
  compare_self := Std.ReflCmp.compare_self
  eq_of_compare := ProcKey.eq_of_order

instance : Std.LawfulEqCmp VarKey.order where
  compare_self := Std.ReflCmp.compare_self
  eq_of_compare := VarKey.eq_of_order

end BlockLang
