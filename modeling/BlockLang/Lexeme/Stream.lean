import BlockLang.Lexeme.Automaton
import BlockLang.Text.Lines
import BlockLang.Token.Basic

/-!
# Token streams

The token stream of a source text: the tokens of its lines in order, each line closed by an end
marker, up to the last line that is not blank, and then the marker for the end of the text. Lexical
faults do not interrupt the stream; they are collected beside it.
-/

namespace BlockLang

/-- The token stream of a source text, and the faults found on the way. -/
structure Lexed where
  tokens : List Token
  errors : List (Diagnostic LexicalFault)
  deriving DecidableEq, Repr

namespace Lexeme

/-- The token that an event on the given line stands for. -/
def Event.token? (line : Nat) : Event → Option Token
  | .token k x => some ⟨x, k, line⟩
  | .fault _ => none

def Event.diagnostic? (line : Nat) : Event → Option (Diagnostic LexicalFault)
  | .token _ _ => none
  | .fault f => some ⟨f, line⟩

end Lexeme

namespace Lexed

open Lexeme

/-- The lines of a source text that hold the program: those up to the last one that is not blank. -/
def programLines (source : Text) : List Text := Text.dropBlankEnd (Text.lines source)

/-- The tokens of one line and its end marker. -/
def lineTokens (line : Nat) (text : Text) : List Token :=
  (eventsOfLine text).filterMap (Event.token? line) ++ [Token.endOfLine line]

def lineErrors (line : Nat) (text : Text) : List (Diagnostic LexicalFault) :=
  (eventsOfLine text).filterMap (Event.diagnostic? line)

/-- Tokenizes a source text; lines are counted from 1. -/
def ofSource (source : Text) : Lexed :=
  let numbered := (programLines source).zipIdx 1
  { tokens := numbered.flatMap (fun (text, n) => lineTokens n text) ++
      [Token.endOfFile (numbered.length + 1)]
    errors := numbered.flatMap fun (text, n) => lineErrors n text }

/-- The tokens that the grammar is about. -/
def significant (l : Lexed) : List Token := Token.significant l.tokens

def hasErrors (l : Lexed) : Bool := !l.errors.isEmpty

end Lexed

end BlockLang
