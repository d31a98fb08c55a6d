import BlockLang.Artifact.TokenFile
import BlockLang.Cursor
import BlockLang.Storage.Fault

/-!
# Fatal errors

What ends a run before its time. Faults of the program alone are not fatal, but a stage that has
noted any does not count as passed.
-/

namespace BlockLang

inductive Fatal where
  | cannotOpenSource (path : Text) (cause : StorageFault)
  | cannotWrite (path : Text) (cause : StorageFault)
  | cannotRead (path : Text) (cause : StorageFault)
  | tokenFile (fault : TokenFile.Fault)
  /-- The tokens are not those of the source text. -/
  | sourceMismatch (mismatch : Mismatch)
  /-- The lexical stage has noted faults in the log. -/
  | lexicalErrors (count : Nat) (log : Text)
  /-- The log holds faults where none may be. -/
  | loggedErrors (count : Nat) (log : Text)
  deriving DecidableEq, Repr

namespace Fatal

def message : Fatal → Text
  | cannotOpenSource p e => "cannot open source file ".toList ++ p ++ ": ".toList ++ e.message
  | cannotWrite p e => "cannot write ".toList ++ p ++ ": ".toList ++ e.message
  | cannotRead p e => "cannot read ".toList ++ p ++ ": ".toList ++ e.message
  | tokenFile f => f.message
  | sourceMismatch m =>
    "source does not match token stream at line ".toList ++ Text.decimal m.line ++
      ": expected ".toList ++ Text.quoted m.expected ++ ", found ".toList ++ Text.quoted m.remaining
  | lexicalErrors n p =>
    "lexical analysis failed: ".toList ++ Text.decimal n ++ " errors, see ".toList ++ p
  | loggedErrors n p => Text.decimal n ++ " errors, see ".toList ++ p

def cause? : Fatal → Option StorageFault
  | cannotOpenSource _ e | cannotWrite _ e | cannotRead _ e => some e
  | _ => none

end Fatal

end BlockLang
