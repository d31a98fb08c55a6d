import BlockLang.Proofs.Symbol.Nearest

/-!
# Tables without indexes

A plain table has nothing but the rows and searches them from the first to the last. A symbol table
whose indexes lead to the rows gives the same answers.
-/

namespace BlockLang

/-- The rows of a symbol table. -/
structure Rows where
  procedureRows : Array Procedure
  variableRows : Array Variable
  deriving DecidableEq, Repr

namespace Rows

/-- The table that holds nothing but the main procedure. -/
def initial : Rows := ⟨#[SymbolTable.mainProcedure], #[]⟩

/-! ## Searching -/

def procedureAt? (r : Rows) (name : Text) (level : Nat) (parent : ProcId) : Option ProcId :=
  (r.procedureRows.findIdx? fun p => p.name = name ∧ p.level = level ∧ p.parent = some parent).map
    ProcId.mk

def positionOf? (r : Rows) (name : Text) (owner : ProcId) (kind : VarKind) (level : Nat) :
    Option Nat :=
  r.variableRows.findIdx? fun v => v.name = name ∧ v.owner = owner ∧ v.kind = kind ∧ v.level = level

def variableAt? (r : Rows) (name : Text) (owner : ProcId) (kind : VarKind) (level : Nat) :
    Option Variable :=
  r.variableRows.find? fun v => v.name = name ∧ v.owner = owner ∧ v.kind = kind ∧ v.level = level

/-- What a procedure itself has under a name: a local variable before a parameter. -/
def variableIn? (r : Rows) (name : Text) (p : ProcId) (level : Nat) : Option Variable :=
  (r.variableAt? name p .localVar level).or (r.variableAt? name p .parameter level)

/-- The first variable of a name in some procedures, of which each is looked through on a level of
its own: on the given one and so on down to 0. -/
def variableAlong? (r : Rows) (name : Text) (ps : List ProcId) (level : Nat) : Option Variable :=
  (ps.zip (List.range (level + 1)).reverse).findSome? fun o => r.variableIn? name o.1 o.2

/-- The first function of a name that is declared in one of some procedures, one level above it. -/
def procedureAlong? (r : Rows) (name : Text) (ps : List ProcId) : Option ProcId :=
  ps.findSome? fun p => r.procedureRows[p.index]?.bind fun o => r.procedureAt? name (o.level + 1) p

/-! ## Declaring -/

def declareProcedure (r : Rows) (name returnType : Text) (level : Nat) (parent : ProcId) :
    Declared ProcId × Rows :=
  match r.procedureAt? name level parent with
  | some q => (.duplicate q, r)
  | none => (.new ⟨r.procedureRows.size⟩,
      { r with procedureRows := r.procedureRows.push ⟨name, returnType, level, 0, 0, some parent⟩ })

def declareVariable (r : Rows) (name : Text) (owner : ProcId) (kind : VarKind) (type : Text)
    (level : Nat) : Declared Nat × Rows :=
  match r.positionOf? name owner kind level with
  | some i => (.duplicate i, r)
  | none => (.new r.variableRows.size,
      { r with
        variableRows :=
          r.variableRows.push ⟨name, owner, kind, type, level, r.variableRows.size⟩ })

def setParameterRange (r : Rows) (p : ProcId) (first last : Nat) : Rows :=
  { r with procedureRows := r.procedureRows.modify p.index fun q =>
      { q with firstParameter := first, lastParameter := last } }

end Rows

namespace SymbolTable

/-- A symbol table without its indexes. -/
def rows (t : SymbolTable) : Rows := ⟨t.procedureRows, t.variableRows⟩

variable {t : SymbolTable} {p q : ProcId} {ps : List ProcId} {n : Nat}

namespace Indexed

/-! ## Indexes and searches -/

theorem findProcedure?_eq (h : t.Indexed) (name : Text) (level : Nat) (parent : ProcId) :
    t.findProcedure? ⟨name, level, some parent⟩ = t.rows.procedureAt? name level parent := by
  rw [Rows.procedureAt?]
  cases hf : t.rows.procedureRows.findIdx? fun p =>
      p.name = name ∧ p.level = level ∧ p.parent = some parent with
  | some i =>
      obtain ⟨hi, hrow, -⟩ := Array.findIdx?_eq_some_iff_getElem.mp hf
      refine (h.findProcedure?_iff _ _).mpr ?_
      have hkey : t.rows.procedureRows[i].key = ⟨name, level, some parent⟩ := by
        simpa [Procedure.key] using hrow
      exact (key?_of_procedure (Array.getElem?_eq_getElem hi)).trans (congrArg some hkey)
  | none =>
      rw [Array.findIdx?_eq_none_iff] at hf
      refine Option.eq_none_iff_forall_ne_some.mpr fun q hq => ?_
      obtain ⟨r, hr, hkey⟩ := exists_procedure_of_key? ((h.findProcedure?_iff _ q).mp hq)
      have hrow := hf r (Array.mem_of_getElem? hr)
      simp only [Procedure.key, ProcKey.mk.injEq] at hkey
      simp [hkey] at hrow

theorem variableIndex_eq (h : t.Indexed) (name : Text) (owner : ProcId) (kind : VarKind)
    (level : Nat) : t.variableIndex[(⟨name, owner, kind, level⟩ : VarKey)]? =
      t.rows.positionOf? name owner kind level := by
  rw [Rows.positionOf?]
  cases hf : t.rows.variableRows.findIdx? fun v =>
      v.name = name ∧ v.owner = owner ∧ v.kind = kind ∧ v.level = level with
  | some i =>
      obtain ⟨hi, hrow, -⟩ := Array.findIdx?_eq_some_iff_getElem.mp hf
      refine (h.variableIndex_iff _ _).mpr ⟨_, Array.getElem?_eq_getElem hi, ?_⟩
      simpa [Variable.key] using hrow
  | none =>
      rw [Array.findIdx?_eq_none_iff] at hf
      refine Option.eq_none_iff_forall_ne_some.mpr fun i hi => ?_
      obtain ⟨v, hv, hkey⟩ := (h.variableIndex_iff _ i).mp hi
      have hrow := hf v (Array.mem_of_getElem? hv)
      simp only [Variable.key, VarKey.mk.injEq] at hkey
      simp [hkey] at hrow

theorem findVariable?_eq (h : t.Indexed) (name : Text) (owner : ProcId) (kind : VarKind)
    (level : Nat) :
    t.findVariable? ⟨name, owner, kind, level⟩ = t.rows.variableAt? name owner kind level := by
  rw [Rows.variableAt?]
  cases hf : t.rows.variableRows.find? fun v =>
      v.name = name ∧ v.owner = owner ∧ v.kind = kind ∧ v.level = level with
  | some v =>
      refine (h.findVariable?_eq_some_iff _).mpr ⟨Array.mem_of_find?_eq_some hf, ?_⟩
      simpa [Variable.key] using Array.find?_some hf
  | none =>
      rw [Array.find?_eq_none] at hf
      refine Option.eq_none_iff_forall_ne_some.mpr fun v hv => ?_
      obtain ⟨hmem, hkey⟩ := (h.findVariable?_eq_some_iff _).mp hv
      have hrow := hf v hmem
      simp only [Variable.key, VarKey.mk.injEq] at hkey
      simp [hkey] at hrow

/-! ## Lookups -/

theorem ownVariable?_eq (h : t.Indexed) (name : Text) (p : ProcId) (level : Nat) :
    t.ownVariable? name p level = t.rows.variableIn? name p level := by
  rw [ownVariable?, h.findVariable?_eq, h.findVariable?_eq, Option.orElse_eq_orElse,
    Option.orElse_eq_or, Rows.variableIn?]

/-- The levels go down together with the procedures. -/
theorem firstVariable?_eq (h : t.Indexed) (name : Text) (ps : List ProcId) (level : Nat) :
    t.firstVariable? name ps level = t.rows.variableAlong? name ps level := by
  induction ps generalizing level with
  | nil => rfl
  | cons p ps ih =>
      have hlevels : (List.range (level + 1)).reverse = level :: (List.range level).reverse := by
        rw [List.range_succ, List.reverse_append, List.reverse_singleton, List.singleton_append]
      rw [Rows.variableAlong?, hlevels, List.zip_cons_cons, List.findSome?_cons,
        ← h.ownVariable?_eq]
      cases level with
      | zero => cases hown : t.ownVariable? name p 0 <;> simp [firstVariable?, hown]
      | succ l =>
          rw [firstVariable?, ih, Rows.variableAlong?]
          cases t.ownVariable? name p (l + 1) <;> rfl

theorem ownProcedure?_eq (h : t.Indexed) (name : Text) (p : ProcId) :
    t.ownProcedure? name p =
      t.rows.procedureRows[p.index]?.bind fun o => t.rows.procedureAt? name (o.level + 1) p := by
  simp only [ownProcedure?, h.findProcedure?_eq]
  rfl

theorem resolveProcedure?_eq (h : t.Indexed) (name : Text) (p : ProcId) :
    t.resolveProcedure? name p = t.rows.procedureAlong? name (t.enclosing p) := by
  rw [resolveProcedure?, Rows.procedureAlong?]
  exact congrArg (fun f => (t.enclosing p).findSome? f) (funext (h.ownProcedure?_eq name))

end Indexed

end SymbolTable

end BlockLang
