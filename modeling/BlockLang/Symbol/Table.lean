import BlockLang.Symbol.Entry

/-!
# Symbol tables

A symbol table holds procedures and variables in the order of their declaration. Entries are only
ever added at the end, so a handle always denotes the same entry. Beside the rows, the table keeps
for each identity the position of the row that has it.
-/

namespace BlockLang

structure SymbolTable where
  procedureRows : Array Procedure
  procedureIndex : Std.TreeMap ProcKey ProcId ProcKey.order
  variableRows : Array Variable
  variableIndex : Std.TreeMap VarKey Nat VarKey.order

/-- The answer to a declaration: the new entry, or the older one with the same identity. -/
inductive Declared (α : Type) where
  | new (entry : α)
  | duplicate (entry : α)
  deriving DecidableEq, Repr

namespace Declared

def entry {α : Type} : Declared α → α
  | .new a | .duplicate a => a

def isDuplicate {α : Type} : Declared α → Bool
  | .new _ => false
  | .duplicate _ => true

end Declared

namespace SymbolTable

/-- The main procedure, which owns the declarations at the top level. -/
def mainProcedure : Procedure := ⟨"main".toList, "void".toList, 0, 0, 0, none⟩

def root : ProcId := ⟨0⟩

/-- The table that holds nothing but the main procedure. -/
def initial : SymbolTable where
  procedureRows := #[mainProcedure]
  procedureIndex := Std.TreeMap.empty.insert mainProcedure.key root
  variableRows := #[]
  variableIndex := Std.TreeMap.empty

/-! ## Reading -/

def procedure? (t : SymbolTable) (p : ProcId) : Option Procedure := t.procedureRows[p.index]?

def variableCount (t : SymbolTable) : Nat := t.variableRows.size

/-- The name of the procedure that owns a variable. -/
def ownerName (t : SymbolTable) (v : Variable) : Text :=
  ((t.procedure? v.owner).map (·.name)).getD []

def findProcedure? (t : SymbolTable) (k : ProcKey) : Option ProcId := t.procedureIndex[k]?

def findVariable? (t : SymbolTable) (k : VarKey) : Option Variable := do
  t.variableRows[← t.variableIndex[k]?]?

/-! ## Declaring -/

def declareProcedure (t : SymbolTable) (name returnType : Text) (level : Nat) (parent : ProcId) :
    Declared ProcId × SymbolTable :=
  let p : Procedure := ⟨name, returnType, level, 0, 0, some parent⟩
  match t.findProcedure? p.key with
  | some q => (.duplicate q, t)
  | none =>
    let q : ProcId := ⟨t.procedureRows.size⟩
    (.new q, { t with
      procedureRows := t.procedureRows.push p
      procedureIndex := t.procedureIndex.insert p.key q })

/-- Records where the parameter of a procedure is in the variable table. -/
def setParameterRange (t : SymbolTable) (p : ProcId) (first last : Nat) : SymbolTable :=
  { t with procedureRows := t.procedureRows.modify p.index fun q =>
      { q with firstParameter := first, lastParameter := last } }

def declareVariable (t : SymbolTable) (name : Text) (owner : ProcId) (kind : VarKind) (type : Text)
    (level : Nat) : Declared Nat × SymbolTable :=
  let v : Variable := ⟨name, owner, kind, type, level, t.variableRows.size⟩
  match t.variableIndex[v.key]? with
  | some i => (.duplicate i, t)
  | none =>
    (.new v.index, { t with
      variableRows := t.variableRows.push v
      variableIndex := t.variableIndex.insert v.key v.index })

end SymbolTable

end BlockLang
