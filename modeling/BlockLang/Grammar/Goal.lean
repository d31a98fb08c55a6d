import BlockLang.Grammar.Fault
import BlockLang.Token.Basic

/-!
# Goals

A goal is a part of a program that is expected next. Looking at most two tokens ahead, a goal
decides how it goes on: what it tells of (`Event`), which goals take its place, and whether the
current token is consumed (`Move`). The grammar is

```text
program      ::= begin declarations statements end
declarations ::= [declaration] (";" [declaration])*
declaration  ::= integer name
               | integer function name "(" name ")" ";" begin declarations statements end
statements   ::= statement (";" statement)*
statement    ::= read "(" name ")" | write "(" name ")" | name ":=" expression
               | if expression relation expression then statement else statement
expression   ::= term ("-" term)*
term         ::= factor ("*" factor)*
factor       ::= name | number | name "(" expression ")"
relation     ::= "=" | "<>" | "<=" | "<" | ">=" | ">"
```

A token that does not fit is reported, and reading goes on from where it stands.
-/

namespace BlockLang.Grammar

/-- What is told of a program while it is read. -/
inductive Event where
  /-- The token becomes the current one. -/
  | reach (token : Token)
  | report (fault : GrammarFault)
  | declare (name : Text)
  | use (name : Text)
  | call (name : Text)
  /-- The header of a function: from here on its scope is the current one. -/
  | enter (name : Text) (returnType : Text)
  /-- The place of the parameter in a header, with its name if there is one. -/
  | parameter (name : Option Text)
  /-- The body of a function has ended. -/
  | leave
  deriving DecidableEq, Repr

/-- A part of a program that is expected next. -/
inductive Goal where
  /-- A token of the kind; whatever stands there is consumed. -/
  | expect (kind : TokenKind) (place : Place)
  /-- A token of the kind; anything else stays where it is. -/
  | accept (kind : TokenKind) (place : Place)
  | declarations
  | moreDeclarations
  | declaration
  | declaredName
  | functionName (returnType : Text)
  | parameter
  | endOfFunction
  | statements
  | moreStatements
  | statement
  | expression
  | moreTerms
  | term
  | moreFactors
  | factor
  | relation
  | variable
  | endOfProgram
  deriving DecidableEq, Repr

/-- How a goal goes on. -/
inductive Move where
  /-- The current token stays. -/
  | keep (events : List Event) (goals : List Goal)
  /-- The current token, if there is one, is consumed. -/
  | shift (events : List Event) (goals : List Goal)
  deriving DecidableEq, Repr

/-! ## The current token -/

def kind? (ts : List Token) : Option TokenKind := ts.head?.map (·.kind)

def nextKind? (ts : List Token) : Option TokenKind := kind? ts.tail

/-- The lexeme of the current token, empty at the end of the input. -/
def lexeme (ts : List Token) : Text := (ts.head?.map (·.lexeme)).getD []

/-- What messages say about the current token. -/
def found (ts : List Token) : Text := (ts.head?.map (·.lexeme)).getD "end of input".toList

/-! ## Moves -/

/-- The goals of a function declaration after the word `integer`. -/
def functionGoals (returnType : Text) : List Goal :=
  [.expect .functionWord .functionDeclaration, .functionName returnType,
    .expect .leftParen .functionDeclaration, .parameter, .expect .rightParen .functionDeclaration,
    .expect .semicolon .headerEnd, .expect .beginWord .bodyStart, .declarations, .statements,
    .expect .endWord .bodyEnd, .endOfFunction]

/-- The goals of a read or write statement after its first word. -/
def transferGoals (place : Place) : List Goal :=
  [.expect .leftParen place, .variable, .expect .rightParen place]

/-- The goals of a conditional statement after its first word. -/
def conditionalGoals : List Goal :=
  [.expression, .relation, .expression, .expect .thenWord .conditional, .statement,
    .expect .elseWord .conditional, .statement]

/-- The goals of a function call after the name. -/
def callGoals : List Goal := [.expect .leftParen .call, .expression, .expect .rightParen .call]

def Goal.move (ts : List Token) : Goal → Move
  | .expect k p => if kind? ts = some k then .shift [] [] else .shift [.report (.missing k p)] []
  | .accept k p => if kind? ts = some k then .shift [] [] else .keep [.report (.missing k p)] []
  | .declarations => .keep [] [.declaration, .moreDeclarations]
  | .moreDeclarations =>
    if kind? ts = some .semicolon then .shift [] [.declaration, .moreDeclarations] else .keep [] []
  | .declaration =>
    if kind? ts = some .integerWord then
      match nextKind? ts with
      | some .functionWord => .shift [] (functionGoals (lexeme ts))
      | some .identifier => .shift [] [.declaredName, .variable]
      | some _ => .keep [.report .invalidDeclaration] []
      | none => .keep [.report .unexpectedEnd] []
    else
      .keep [] []
  | .declaredName => .keep [.declare (lexeme ts)] []
  | .functionName r =>
    if kind? ts = some .identifier then .shift [.enter (lexeme ts) r] []
    else .shift [.report (.missing .identifier .functionName), .enter (lexeme ts) r] []
  | .parameter =>
    if kind? ts = some .identifier then .shift [.parameter (some (lexeme ts))] []
    else .shift [.report (.missingParameter (found ts)), .parameter none] []
  | .endOfFunction => .keep [.leave] []
  | .statements => .keep [] [.statement, .moreStatements]
  | .moreStatements =>
    if kind? ts = some .semicolon then .shift [] [.statement, .moreStatements] else .keep [] []
  | .statement =>
    match kind? ts with
    | some .readWord => .shift [] (transferGoals .readStatement)
    | some .writeWord => .shift [] (transferGoals .writeStatement)
    | some .identifier => .keep [] [.variable, .expect .assign .assignment, .expression]
    | some .ifWord => .shift [] conditionalGoals
    | _ => .keep [.report (.illegalStatement (found ts))] []
  | .expression => .keep [] [.term, .moreTerms]
  | .moreTerms =>
    if kind? ts = some .minus then .shift [] [.term, .moreTerms] else .keep [] []
  | .term => .keep [] [.factor, .moreFactors]
  | .moreFactors =>
    if kind? ts = some .times then .shift [] [.factor, .moreFactors] else .keep [] []
  | .factor =>
    match kind? ts with
    | some .identifier =>
      if nextKind? ts = some .leftParen then .shift [.call (lexeme ts)] callGoals
      else .keep [] [.variable]
    | some .constant => .shift [] []
    | _ => .keep [.report (.expectedFactor (found ts))] []
  | .relation =>
    if (kind? ts).any TokenKind.isRelational then .shift [] []
    else .keep [.report (.expectedRelation (found ts))] []
  | .variable =>
    if kind? ts = some .identifier then .shift [.use (lexeme ts)] []
    else .shift [.report (.notIdentifier (found ts)), .use (lexeme ts)] []
  | .endOfProgram =>
    if ts = [] then .keep [] [] else .keep [.report (.trailingSymbol (found ts))] []

def programGoals : List Goal :=
  [.accept .beginWord .programStart, .declarations, .statements, .accept .endWord .programEnd,
    .endOfProgram]

end BlockLang.Grammar
