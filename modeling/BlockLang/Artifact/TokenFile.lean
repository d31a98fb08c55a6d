import BlockLang.Text.Lines
import BlockLang.Text.Pieces
import BlockLang.Text.Quoted
import BlockLang.Token.Basic

/-!
# Token files

A token file has one line for each token: the lexeme and the code of its kind, each in a column of
its own. The lines of the source text are not written; they are recovered from the end markers. A
reader is more lenient than the writer: columns may have any width, and what is between lexeme and
code must only begin with a space.
-/

namespace BlockLang.TokenFile

def lexemeWidth : Nat := 16

def codeWidth : Nat := 2

def entry (t : Token) : Text :=
  Text.padLeft lexemeWidth t.lexeme ++ ' ' :: Text.padLeft codeWidth (Text.decimal t.kind.code)

def encode (ts : List Token) : Text := Text.unlines (ts.map entry)

/-- What is wrong with a token file, and on which of its lines. -/
inductive Fault where
  /-- A line that has no space between two parts. -/
  | malformedEntry (line : Nat) (entry : Text)
  /-- A line whose second part is not the code of a kind. -/
  | invalidCode (line : Nat) (code : Text)
  deriving DecidableEq, Repr

def Fault.message : Fault → Text
  | malformedEntry n e =>
    "token file error (line ".toList ++ Text.decimal n ++ "): malformed entry ".toList ++
      Text.quoted e
  | invalidCode n c =>
    "token file error (line ".toList ++ Text.decimal n ++ "): invalid kind code ".toList ++
      Text.quoted c

def kindOfCode? (code : Text) : Option TokenKind := do TokenKind.ofCode? (← Text.numeral? code)

/-- Reads line `n` of a token file. -/
def decodeEntry (n : Nat) (e : Text) : Except Fault (Text × TokenKind) :=
  match Text.splitFirst? ' ' (Text.trim e) with
  | none => .error (.malformedEntry n e)
  | some (x, c) =>
    match kindOfCode? (Text.trim c) with
    | none => .error (.invalidCode n (Text.trim c))
    | some k => .ok (x, k)

/-- Reads the lines from the `n`th on, the next token being on line `line` of the source. -/
def decodeFrom (n line : Nat) : List Text → Except Fault (List Token)
  | [] => .ok []
  | e :: es => do
    let (x, k) ← decodeEntry n e
    let ts ← decodeFrom (n + 1) (if k = .endOfLine then line + 1 else line) es
    return ⟨x, k, line⟩ :: ts

/-- Reads a token file; the first line that is wrong decides the fault. -/
def decode (text : Text) : Except Fault (List Token) := decodeFrom 1 1 (Text.lines text)

end BlockLang.TokenFile
