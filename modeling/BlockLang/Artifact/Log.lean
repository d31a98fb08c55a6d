import BlockLang.Diagnostic
import BlockLang.Text.Lines

/-!
# The diagnostic log

The log has one line for each diagnostic. A run is clean as long as no line of the log has anything
on it.
-/

namespace BlockLang.Log

def ofDiagnostics {φ : Type} [Fault φ] (ds : List (Diagnostic φ)) : Text :=
  Text.unlines (ds.map Diagnostic.render)

/-- The number of lines that are not blank. -/
def count (log : Text) : Nat := (Text.lines log).countP fun l => !Text.isBlankText l

end BlockLang.Log
