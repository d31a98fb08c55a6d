import BlockLang.Grammar.Fault

/-!
# Faults of a program

Beside the order of its tokens, a program can be wrong in what its names stand for.
-/

namespace BlockLang

/-- A name that is declared twice or not at all. -/
inductive ScopeFault where
  | duplicateVariable (name : Text)
  | duplicateFunction (name : Text)
  | undefinedVariable (name : Text)
  | undefinedFunction (name : Text)
  deriving DecidableEq, Repr

namespace ScopeFault

def message : ScopeFault → Text
  | duplicateVariable x => "variable \"".toList ++ x ++ "\" redefined".toList
  | duplicateFunction x => "function \"".toList ++ x ++ "\" redefined".toList
  | undefinedVariable x => "variable not defined: ".toList ++ x
  | undefinedFunction x => "function not declared: ".toList ++ x

instance : Fault ScopeFault := ⟨message⟩

end ScopeFault

/-- A fault that the analysis of a program can find. -/
inductive ProgramFault where
  | grammar (fault : GrammarFault)
  | scope (fault : ScopeFault)
  deriving DecidableEq, Repr

namespace ProgramFault

def message : ProgramFault → Text
  | grammar f => f.message
  | scope f => f.message

instance : Fault ProgramFault := ⟨message⟩

end ProgramFault

end BlockLang
