import BlockLang.Text.Blank

/-!
# Storage faults

Why a file could not be read or written.
-/

namespace BlockLang

/-- What the system says about a file that it could not read or write. -/
inductive StorageFault where
  | notFound
  | notDirectory
  | isDirectory
  | nameTooLong
  /-- A path with a character that no path can have. -/
  | nulInPath
  | invalidText
  /-- Any other refusal, in the words of the system. -/
  | other (message : Text)
  deriving DecidableEq, Repr

def StorageFault.message : StorageFault → Text
  | notFound => "No such file or directory (os error 2)".toList
  | notDirectory => "Not a directory (os error 20)".toList
  | isDirectory => "Is a directory (os error 21)".toList
  | nameTooLong => "File name too long (os error 36)".toList
  | nulInPath => "file name contained an unexpected NUL byte".toList
  | invalidText => "stream did not contain valid UTF-8".toList
  | other x => x

end BlockLang
