import BlockLang.Symbol.Table

/-!
# Resolution of names

A name is looked up from a procedure outward, through the procedures that enclose it. The nearest
procedure that has the name decides.
-/

namespace BlockLang.SymbolTable

/-- The first `n` of a procedure and the procedures that enclose it, from the inside outward. -/
def ancestry (t : SymbolTable) : (n : Nat) → ProcId → List ProcId
  | 0, _ => []
  | n + 1, p =>
    p :: match (t.procedure? p).bind (·.parent) with
      | none => []
      | some q => ancestry t n q

/-- A procedure and all that enclose it, from the inside outward. A procedure is declared after the
one that encloses it, so no more are enclosing than come before it in the table. -/
def enclosing (t : SymbolTable) (p : ProcId) : List ProcId := t.ancestry (p.index + 1) p

/-- What a procedure itself has under a name at a level: a local variable before a parameter. -/
def ownVariable? (t : SymbolTable) (name : Text) (p : ProcId) (level : Nat) : Option Variable :=
  t.findVariable? ⟨name, p, .localVar, level⟩ <|> t.findVariable? ⟨name, p, .parameter, level⟩

/-- The first variable of a name along a chain of procedures, the level going down by one with each
of them and the search ending at level 0. -/
def firstVariable? (t : SymbolTable) (name : Text) : List ProcId → (level : Nat) → Option Variable
  | [], _ => none
  | p :: ps, level =>
    t.ownVariable? name p level <|>
      match level with
      | 0 => none
      | l + 1 => firstVariable? t name ps l

/-- The variable that a name stands for inside `scope`. -/
def resolveVariable? (t : SymbolTable) (name : Text) (scope : ProcId) (level : Nat) :
    Option Variable :=
  t.firstVariable? name (t.enclosing scope) level

/-- The function of a name that is declared directly inside a procedure. -/
def ownProcedure? (t : SymbolTable) (name : Text) (p : ProcId) : Option ProcId := do
  t.findProcedure? ⟨name, (← t.procedure? p).level + 1, some p⟩

/-- The function that a name stands for inside `scope`. -/
def resolveProcedure? (t : SymbolTable) (name : Text) (scope : ProcId) : Option ProcId :=
  (t.enclosing scope).findSome? (t.ownProcedure? name)

end BlockLang.SymbolTable
