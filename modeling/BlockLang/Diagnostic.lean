import BlockLang.Text.Column

/-!
# Diagnostics

A diagnostic is a fault in the program together with the line on which it was noticed. Each sort of
fault has its own wording; the written form of a diagnostic is the same for all.
-/

namespace BlockLang

/-- The faults of a sort can be put into words. -/
class Fault (φ : Type) where
  message : φ → Text

/-- A fault and its line, counted from 1. -/
structure Diagnostic (φ : Type) where
  fault : φ
  line : Nat
  deriving DecidableEq, Repr

/-- The written form of a diagnostic, which is one line of the diagnostic log. -/
def Diagnostic.render {φ : Type} [Fault φ] (d : Diagnostic φ) : Text :=
  "***LINE:".toList ++ Text.decimal d.line ++ "  ".toList ++ Fault.message d.fault

end BlockLang
