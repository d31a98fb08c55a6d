import BlockLang.Lexeme.Fault
import BlockLang.Token.Kind

/-!
# The lexical automaton

A line is read one character at a time. The state is the lexeme in progress; a character either
extends it or closes it. The character that closes a lexeme is then read once more as the first
character of what follows (`State.after`), so that `x;` gives both `x` and `;`. A blank after the
last character of a line closes whatever is in progress.
-/

namespace BlockLang.Lexeme

/-! ## Character classes -/

/-- The characters of operators and punctuation. -/
def punctuation : List Char := ['=', '-', '*', '(', ')', '<', '>', ':', ';']

/-- The characters that end a word, a number or an illegal run. -/
def isTerminator (c : Char) : Bool := isBlank c || punctuation.contains c

/-- The characters that prolong an operator: all punctuation but the semicolon. -/
def isOperatorChar (c : Char) : Bool := c != ';' && punctuation.contains c

/-! ## States and events -/

/-- The lexeme in progress. Its characters are kept with the last one first. -/
inductive State where
  | start
  /-- Letters and digits after a letter. -/
  | word (back : Text)
  | number (back : Text)
  | lessSign
  | greaterSign
  | colon
  /-- Two or more operator characters that form no operator. -/
  | operatorTail (back : Text)
  /-- A run that no lexeme can begin with. -/
  | illegalRun (back : Text)
  /-- A word broken by a stray character; of what follows, only letters and digits are kept. -/
  | brokenWord (back : Text)
  deriving DecidableEq, Repr

/-- What the automaton has recognised. -/
inductive Event where
  | token (kind : TokenKind) (lexeme : Text)
  | fault (fault : LexicalFault)
  deriving DecidableEq, Repr

/-- A finished word: a reserved word or an identifier, unless it is too long. -/
def Event.ofWord (word : Text) : Event :=
  if word.length < lexemeLimit then
    .token ((TokenKind.keyword? word).getD .identifier) word
  else
    .fault (.wordTooLong word)

/-- A finished number, unless it is too long. -/
def Event.ofNumber (digits : Text) : Event :=
  if digits.length < lexemeLimit then .token .constant digits else .fault (.numberTooLong digits)

/-! ## Steps -/

/-- The token of a character that is a lexeme whatever follows it. -/
def single? : Char → Option TokenKind
  | '=' => some .equal
  | '-' => some .minus
  | '*' => some .times
  | '(' => some .leftParen
  | ')' => some .rightParen
  | ';' => some .semicolon
  | _ => none

/-- Reads a character with no lexeme in progress. -/
def State.opening (c : Char) : State × List Event :=
  if c.isAlpha then (.word [c], [])
  else if c.isDigit then (.number [c], [])
  else if let some k := single? c then (.start, [.token k [c]])
  else if c = '<' then (.lessSign, [])
  else if c = '>' then (.greaterSign, [])
  else if c = ':' then (.colon, [])
  else if isBlank c then (.start, [])
  else (.illegalRun [c], [])

/-- Closes the lexeme in progress with an event and reads the character anew. -/
def State.after (e : Event) (c : Char) : State × List Event :=
  let (s, es) := State.opening c
  (s, e :: es)

def State.step : State → Char → State × List Event
  | .start, c => State.opening c
  | .word w, c =>
    if c.isAlphanum then (.word (c :: w), [])
    else if isTerminator c then State.after (.ofWord w.reverse) c
    else (.brokenWord (c :: w), [])
  | .number w, c =>
    if c.isDigit then (.number (c :: w), [])
    else if isTerminator c then State.after (.ofNumber w.reverse) c
    else (.illegalRun (c :: w), [])
  | .lessSign, c =>
    if c = '=' then (.start, [.token .lessEqual "<=".toList])
    else if c = '>' then (.start, [.token .notEqual "<>".toList])
    else if isOperatorChar c then (.operatorTail [c, '<'], [])
    else State.after (.token .less ['<']) c
  | .greaterSign, c =>
    if c = '=' then (.start, [.token .greaterEqual ">=".toList])
    else if isOperatorChar c then (.operatorTail [c, '>'], [])
    else State.after (.token .greater ['>']) c
  | .colon, c =>
    if c = '=' then (.start, [.token .assign ":=".toList])
    else State.after (.fault .loneColon) c
  | .operatorTail w, c =>
    if isOperatorChar c then (.operatorTail (c :: w), [])
    else State.after (.fault (.illegalOperator w.reverse)) c
  | .illegalRun w, c =>
    if isTerminator c then State.after (.fault (.illegalSymbol w.reverse)) c
    else (.illegalRun (c :: w), [])
  | .brokenWord w, c =>
    if isTerminator c then State.after (.fault (.illegalSymbol w.reverse)) c
    else if c.isAlphanum then (.brokenWord (c :: w), [])
    else (.brokenWord w, [])

/-- Reads the rest of a line and closes what is in progress at its end. -/
def State.run : State → Text → List Event
  | s, [] => (s.step ' ').2
  | s, c :: t => (s.step c).2 ++ (s.step c).1.run t

/-- The events of one line, from left to right. -/
def eventsOfLine (line : Text) : List Event := State.run .start line

/-! ## Runs -/

/-- No lexeme reaches beyond the blank at the end of a line. -/
theorem State.step_blank (s : State) : (s.step ' ').1 = .start := by
  cases s <;> rfl

end BlockLang.Lexeme
