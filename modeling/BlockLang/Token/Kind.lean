import BlockLang.Text.Blank

/-!
# Kinds of tokens

The 25 kinds, their codes in the token file, the reserved words, and the names by which messages
speak of them.
-/

namespace BlockLang

/-- The grammatical category of a lexeme, or one of the two end markers. -/
inductive TokenKind where
  | beginWord
  | endWord
  | integerWord
  | ifWord
  | thenWord
  | elseWord
  | functionWord
  | readWord
  | writeWord
  | identifier
  | constant
  | equal
  | notEqual
  | lessEqual
  | less
  | greaterEqual
  | greater
  | minus
  | times
  | assign
  | leftParen
  | rightParen
  | semicolon
  | endOfLine
  | endOfFile
  deriving DecidableEq, Repr

namespace TokenKind

/-- The code that stands for the kind in a token file. -/
def code : TokenKind → Nat
  | beginWord => 1
  | endWord => 2
  | integerWord => 3
  | ifWord => 4
  | thenWord => 5
  | elseWord => 6
  | functionWord => 7
  | readWord => 8
  | writeWord => 9
  | identifier => 10
  | constant => 11
  | equal => 12
  | notEqual => 13
  | lessEqual => 14
  | less => 15
  | greaterEqual => 16
  | greater => 17
  | minus => 18
  | times => 19
  | assign => 20
  | leftParen => 21
  | rightParen => 22
  | semicolon => 23
  | endOfLine => 24
  | endOfFile => 25

/-- All kinds, in the order of their codes. -/
def all : List TokenKind :=
  [beginWord, endWord, integerWord, ifWord, thenWord, elseWord, functionWord, readWord, writeWord,
    identifier, constant, equal, notEqual, lessEqual, less, greaterEqual, greater, minus, times,
    assign, leftParen, rightParen, semicolon, endOfLine, endOfFile]

def ofCode? (n : Nat) : Option TokenKind := all.find? fun k => k.code == n

def reserved : List (Text × TokenKind) :=
  [("begin".toList, beginWord), ("end".toList, endWord), ("integer".toList, integerWord),
    ("if".toList, ifWord), ("then".toList, thenWord), ("else".toList, elseWord),
    ("function".toList, functionWord), ("read".toList, readWord), ("write".toList, writeWord)]

/-- The kind of a reserved word; upper and lower case differ. -/
def keyword? (word : Text) : Option TokenKind := reserved.lookup word

/-- The kinds that compare two expressions in a condition. -/
def isRelational : TokenKind → Bool
  | equal | notEqual | lessEqual | less | greaterEqual | greater => true
  | _ => false

/-- The kinds that mark where a line or the text ends, which the grammar never sees. -/
def isEndMarker : TokenKind → Bool
  | endOfLine | endOfFile => true
  | _ => false

/-- The name of the kind in messages: its spelling between single quotes, if it has only one. -/
def describe : TokenKind → Text
  | beginWord => "'begin'".toList
  | endWord => "'end'".toList
  | integerWord => "'integer'".toList
  | ifWord => "'if'".toList
  | thenWord => "'then'".toList
  | elseWord => "'else'".toList
  | functionWord => "'function'".toList
  | readWord => "'read'".toList
  | writeWord => "'write'".toList
  | identifier => "identifier".toList
  | constant => "constant".toList
  | equal => "'='".toList
  | notEqual => "'<>'".toList
  | lessEqual => "'<='".toList
  | less => "'<'".toList
  | greaterEqual => "'>='".toList
  | greater => "'>'".toList
  | minus => "'-'".toList
  | times => "'*'".toList
  | assign => "':='".toList
  | leftParen => "'('".toList
  | rightParen => "')'".toList
  | semicolon => "';'".toList
  | endOfLine => "end of line".toList
  | endOfFile => "end of file".toList

/-! ## Codes -/

theorem ofCode?_code (k : TokenKind) : ofCode? k.code = some k := by
  cases k <;> rfl

theorem code_of_ofCode? {n : Nat} {k : TokenKind} (h : ofCode? n = some k) : k.code = n := by
  simpa using List.find?_some h

end TokenKind

end BlockLang
