import BlockLang.Analysis.Session
import BlockLang.Grammar.Trace

/-!
# Outcomes

The analysis of a program gives its symbol table and its faults. The end markers among the tokens
and the lines that the tokens carry are ignored: lines are recovered from the source text.
-/

namespace BlockLang

structure Outcome where
  symbols : SymbolTable
  errors : List (Diagnostic ProgramFault)

namespace Outcome

def hasErrors (o : Outcome) : Bool := !o.errors.isEmpty

/-- Analyses the tokens of a source text. -/
def ofTokens (ts : List Token) (source : Text) : Except Mismatch Outcome := do
  let s ← (Session.start source).performAll (Grammar.eventsOf (Token.significant ts))
  return ⟨s.symbols, s.errors.toList⟩

end Outcome

end BlockLang
