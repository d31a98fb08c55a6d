import BlockLang.Symbol.Table
import BlockLang.Text.Column
import BlockLang.Text.Lines

/-!
# Listings of a symbol table

The procedures and the variables of a symbol table are each listed with one row per entry, in the
order of the table. A row has five columns of equal width.
-/

namespace BlockLang.Listing

def columnWidth : Nat := 16

/-- A row: the columns, filled to their width, with a space between them. -/
def row (columns : List Text) : Text :=
  [' '].intercalate (columns.map (Text.padLeft columnWidth))

/-- The columns of a procedure: name, return type, level and the range of its parameter. -/
def procedureColumns (p : Procedure) : List Text :=
  [p.name, p.returnType, Text.decimal p.level, Text.decimal p.firstParameter,
    Text.decimal p.lastParameter]

/-- The columns of a variable: name, owner, kind, level and position. -/
def variableColumns (t : SymbolTable) (v : Variable) : List Text :=
  [v.name, t.ownerName v, Text.decimal v.kind.code, Text.decimal v.level, Text.decimal v.index]

def ofProcedures (t : SymbolTable) : Text :=
  Text.unlines (t.procedureRows.toList.map fun p => row (procedureColumns p))

def ofVariables (t : SymbolTable) : Text :=
  Text.unlines (t.variableRows.toList.map fun v => row (variableColumns t v))

end BlockLang.Listing
