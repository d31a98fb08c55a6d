import BlockLang.Analysis.Fault
import BlockLang.Cursor
import BlockLang.Grammar.Goal
import BlockLang.Symbol.Resolution

/-!
# Analysis sessions

A session follows the events of a program: it keeps the place in the source text, the symbol table
and the scope, and notes the faults. Declarations change the table, uses are looked up in it. Only a
token that the source text does not have ends a session early.
-/

namespace BlockLang

/-- The type of all variables and functions. -/
def integerType : Text := "integer".toList

/-- The procedure whose declarations and statements are being read. -/
structure Scope where
  procedure : ProcId
  level : Nat
  /-- Whether its header was the first of its identity. -/
  isNew : Bool
  deriving DecidableEq, Repr

structure Session where
  cursor : Cursor
  symbols : SymbolTable
  scope : Scope
  /-- The scopes to return to, the innermost first. -/
  outer : List Scope
  errors : Array (Diagnostic ProgramFault)

namespace Session

open Grammar (Event)

def start (source : Text) : Session where
  cursor := Cursor.ofSource source
  symbols := SymbolTable.initial
  scope := ⟨SymbolTable.root, 0, false⟩
  outer := []
  errors := #[]

/-- Notes a fault on the current line. -/
def note (s : Session) (f : ProgramFault) : Session :=
  { s with errors := s.errors.push ⟨f, s.cursor.line⟩ }

def noteIf (s : Session) (b : Bool) (f : ScopeFault) : Session :=
  if b then s.note (.scope f) else s

def declare (s : Session) (x : Text) : Session :=
  let (d, t) := s.symbols.declareVariable x s.scope.procedure .localVar integerType s.scope.level
  { s with symbols := t }.noteIf d.isDuplicate (.duplicateVariable x)

def use (s : Session) (x : Text) : Session :=
  s.noteIf (s.symbols.resolveVariable? x s.scope.procedure s.scope.level).isNone
    (.undefinedVariable x)

def call (s : Session) (f : Text) : Session :=
  s.noteIf (s.symbols.resolveProcedure? f s.scope.procedure).isNone (.undefinedFunction f)

/-- Declares a function and the slot for its result, and makes its scope the current one. A second
declaration continues the scope of the first. -/
def enter (s : Session) (f returnType : Text) : Session :=
  let level := s.scope.level + 1
  let (d, t) := s.symbols.declareProcedure f returnType level s.scope.procedure
  let (_, t) := t.declareVariable f d.entry .localVar returnType level
  { s.noteIf d.isDuplicate (.duplicateFunction f) with
    symbols := t
    scope := ⟨d.entry, level, !d.isDuplicate⟩
    outer := s.scope :: s.outer }

/-- Declares the parameter of the current function, if it has one, and records the range of its
parameters unless the function was declared before. -/
def parameter (s : Session) (x : Option Text) : Session :=
  let p := s.scope.procedure
  let t := match x with
    | some x => (s.symbols.declareVariable x p .parameter integerType s.scope.level).2
    | none => s.symbols
  { s with symbols :=
      if s.scope.isNew then t.setParameterRange p s.symbols.variableCount t.variableCount else t }

/-- Returns to the scope around the current function. -/
def leave (s : Session) : Session :=
  match s.outer with
  | [] => s
  | o :: os => { s with scope := o, outer := os }

def perform (s : Session) : Event → Except Mismatch Session
  | .reach t => (s.cursor.seek t.lexeme).map fun c => { s with cursor := c }
  | .report f => .ok (s.note (.grammar f))
  | .declare x => .ok (s.declare x)
  | .use x => .ok (s.use x)
  | .call f => .ok (s.call f)
  | .enter f r => .ok (s.enter f r)
  | .parameter x => .ok (s.parameter x)
  | .leave => .ok s.leave

def performAll (s : Session) (es : List Event) : Except Mismatch Session := es.foldlM perform s

end Session

end BlockLang
