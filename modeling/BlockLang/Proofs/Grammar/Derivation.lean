import BlockLang.Token.Basic

/-!
# Derivations

The words of the grammar: each predicate holds of the sequences of kinds that a part of a program
can have.
-/

namespace BlockLang.Grammar

open TokenKind

def kinds (ts : List Token) : List TokenKind := ts.map (·.kind)

mutual

/-- `factor ::= name | number | name "(" expression ")"` -/
inductive IsFactor : List TokenKind → Prop
  | name : IsFactor [identifier]
  | number : IsFactor [constant]
  | call {e : List TokenKind} (he : IsExpression e) :
      IsFactor (identifier :: leftParen :: e ++ [rightParen])

/-- `term ::= factor ("*" factor)*` -/
inductive IsTerm : List TokenKind → Prop
  | factor {f : List TokenKind} (hf : IsFactor f) : IsTerm f
  | product {f t : List TokenKind} (hf : IsFactor f) (ht : IsTerm t) : IsTerm (f ++ times :: t)

/-- `expression ::= term ("-" term)*` -/
inductive IsExpression : List TokenKind → Prop
  | term {t : List TokenKind} (ht : IsTerm t) : IsExpression t
  | difference {t e : List TokenKind} (ht : IsTerm t) (he : IsExpression e) :
      IsExpression (t ++ minus :: e)

end

/-- `statement ::= read "(" name ")" | write "(" name ")" | name ":=" expression`
`| if expression relation expression then statement else statement` -/
inductive IsStatement : List TokenKind → Prop
  | read : IsStatement [readWord, leftParen, identifier, rightParen]
  | write : IsStatement [writeWord, leftParen, identifier, rightParen]
  | assignment {e : List TokenKind} (he : IsExpression e) :
      IsStatement (identifier :: assign :: e)
  | conditional {d e s t : List TokenKind} {r : TokenKind} (hd : IsExpression d)
      (hr : r.isRelational) (he : IsExpression e) (hs : IsStatement s) (ht : IsStatement t) :
      IsStatement (ifWord :: d ++ r :: e ++ thenWord :: s ++ elseWord :: t)

/-- `statements ::= statement (";" statement)*` -/
inductive IsStatements : List TokenKind → Prop
  | last {s : List TokenKind} (hs : IsStatement s) : IsStatements s
  | more {s ss : List TokenKind} (hs : IsStatement s) (hss : IsStatements ss) :
      IsStatements (s ++ semicolon :: ss)

mutual

/-- `declaration ::= integer name`
`| integer function name "(" name ")" ";" begin declarations statements end` -/
inductive IsDeclaration : List TokenKind → Prop
  | variable : IsDeclaration [integerWord, identifier]
  | function {ds ss : List TokenKind} (hds : IsDeclarations ds) (hss : IsStatements ss) :
      IsDeclaration (integerWord :: functionWord :: identifier :: leftParen :: identifier ::
        rightParen :: semicolon :: beginWord :: ds ++ ss ++ [endWord])

/-- `declarations ::= [declaration] (";" [declaration])*` -/
inductive IsDeclarations : List TokenKind → Prop
  | none : IsDeclarations []
  | last {d : List TokenKind} (hd : IsDeclaration d) : IsDeclarations d
  | skip {ds : List TokenKind} (hds : IsDeclarations ds) : IsDeclarations (semicolon :: ds)
  | more {d ds : List TokenKind} (hd : IsDeclaration d) (hds : IsDeclarations ds) :
      IsDeclarations (d ++ semicolon :: ds)

end

/-- `program ::= begin declarations statements end` -/
inductive IsProgram : List TokenKind → Prop
  | block {ds ss : List TokenKind} (hds : IsDeclarations ds) (hss : IsStatements ss) :
      IsProgram (beginWord :: ds ++ ss ++ [endWord])

end BlockLang.Grammar
