import BlockLang.Diagnostic

/-!
# Lexical faults

What can be wrong with a piece of text that should be a lexeme.
-/

namespace BlockLang

/-- A word or a number must have fewer characters than this. -/
def lexemeLimit : Nat := 16

/-- A lexical fault, with the offending piece of text. -/
inductive LexicalFault where
  /-- A word or a run with a character that no lexeme has. -/
  | illegalSymbol (text : Text)
  /-- A colon that is not followed by an equals sign. -/
  | loneColon
  /-- Several operator characters that form no operator. -/
  | illegalOperator (text : Text)
  | wordTooLong (text : Text)
  | numberTooLong (text : Text)
  deriving DecidableEq, Repr

namespace LexicalFault

def message : LexicalFault → Text
  | illegalSymbol x => "illegal symbol \"".toList ++ x ++ "\"".toList
  | loneColon => "\":\" doesn't match".toList
  | illegalOperator x => "illegal operator \"".toList ++ x ++ "\"".toList
  | wordTooLong x => "symbol \"".toList ++ x ++ "\" too long (>=16)".toList
  | numberTooLong x => "number \"".toList ++ x ++ "\" too long (>=16)".toList

instance : Fault LexicalFault := ⟨message⟩

end LexicalFault

end BlockLang
