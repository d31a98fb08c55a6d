import BlockLang.Text.Blank
import BlockLang.Text.Invisible

/-!
# Quoted texts

A text is quoted for a message by writing it between double quotes, so that a reader sees where it
begins and ends and what it consists of: a double quote and a backslash stand behind a backslash,
tab, line feed, carriage return and NUL have their letters, and every other invisible character is
written by its code point in lower-case hexadecimal.
-/

namespace BlockLang.Text

/-- How one character is written inside a quoted text. -/
def quotedChar (c : Char) : Text :=
  if c = '"' ∨ c = '\\' then ['\\', c]
  else if c = '\t' then ['\\', 't']
  else if c = '\n' then ['\\', 'n']
  else if c = '\r' then ['\\', 'r']
  else if c = '\x00' then ['\\', '0']
  else if isInvisible c then "\\u\x7b".toList ++ Nat.toDigits 16 c.toNat ++ "\x7d".toList
  else [c]

/-- The text between double quotes, each character written as `quotedChar` says. -/
def quoted (t : Text) : Text := '"' :: t.flatMap quotedChar ++ ['"']

end BlockLang.Text
