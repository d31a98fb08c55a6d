import BlockLang.Text.Column
import BlockLang.Token.Kind

/-!
# Tokens

A token is a lexeme with its kind and the line it stands on. The end markers say where lines and the
whole text end; the grammar is about the tokens without them.
-/

namespace BlockLang

/-- A classified lexeme and its line, counted from 1. -/
structure Token where
  lexeme : Text
  kind : TokenKind
  line : Nat
  deriving DecidableEq, Repr

namespace Token

def endOfLine (line : Nat) : Token := ⟨"EOLN".toList, .endOfLine, line⟩

def endOfFile (line : Nat) : Token := ⟨"EOF".toList, .endOfFile, line⟩

/-- The tokens that the grammar is about: all but the end markers. -/
def significant (ts : List Token) : List Token := ts.filter fun t => !t.kind.isEndMarker

/-- The short written form: lexeme, colon, code. -/
def summary (t : Token) : Text := t.lexeme ++ ':' :: Text.decimal t.kind.code

end Token

/-! ## Significant tokens -/

theorem Token.mem_significant {t : Token} {ts : List Token} :
    t ∈ Token.significant ts ↔ t ∈ ts ∧ t.kind.isEndMarker = false := by
  simp [Token.significant]

theorem Token.significant_append (ts us : List Token) :
    Token.significant (ts ++ us) = Token.significant ts ++ Token.significant us := by
  simp [Token.significant]

end BlockLang
