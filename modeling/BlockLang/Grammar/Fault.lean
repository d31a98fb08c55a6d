import BlockLang.Diagnostic
import BlockLang.Token.Kind

/-!
# Grammatical faults

What can be wrong with the order of the tokens of a program.
-/

namespace BlockLang

/-- Where in the grammar a token is required. -/
inductive Place where
  | programStart
  | programEnd
  | functionDeclaration
  | functionName
  | headerEnd
  | bodyStart
  | bodyEnd
  | readStatement
  | writeStatement
  | assignment
  | conditional
  | call
  deriving DecidableEq, Repr

def Place.describe : Place → Text
  | programStart => "at start of program".toList
  | programEnd => "at end of program".toList
  | functionDeclaration => "in function declaration".toList
  | functionName => "after 'function'".toList
  | headerEnd => "after function header".toList
  | bodyStart => "at start of function body".toList
  | bodyEnd => "at end of function body".toList
  | readStatement => "in read statement".toList
  | writeStatement => "in write statement".toList
  | assignment => "in assignment".toList
  | conditional => "in conditional statement".toList
  | call => "in function call".toList

/-- A grammatical fault. The text in a fault is what was found instead. -/
inductive GrammarFault where
  | missing (kind : TokenKind) (place : Place)
  | invalidDeclaration
  | unexpectedEnd
  | notIdentifier (found : Text)
  | missingParameter (found : Text)
  | illegalStatement (found : Text)
  | expectedFactor (found : Text)
  | expectedRelation (found : Text)
  | trailingSymbol (found : Text)
  deriving DecidableEq, Repr

namespace GrammarFault

def message : GrammarFault → Text
  | missing k p => "missing ".toList ++ k.describe ++ ' ' :: p.describe
  | invalidDeclaration => "invalid declaration statement".toList
  | unexpectedEnd => "unexpected end of input".toList
  | notIdentifier x => "not a variable identifier: ".toList ++ x
  | missingParameter x => "function must declare exactly one parameter, found ".toList ++ x
  | illegalStatement x => "illegal start of statement: ".toList ++ x
  | expectedFactor x => "expected constant, variable or function call, found ".toList ++ x
  | expectedRelation x => "not a relational operator: ".toList ++ x
  | trailingSymbol x => "unexpected symbol after program end: ".toList ++ x

instance : Fault GrammarFault := ⟨message⟩

end GrammarFault

end BlockLang
