import BlockLang.Command.Wording
import BlockLang.Compilation

/-!
# The command

The command compiles one source file, or says something about itself. It tells its user what it does
and what went wrong, and ends with a code: 0 if all is well, 1 if the run has failed, 2 if the
arguments are not understood.
-/

namespace BlockLang.Command

structure Exit where
  code : Nat
  output : Text
  deriving DecidableEq, Repr

variable {m : Type → Type} [Monad m] [Workspace m]

def Request.answer : Request → m Exit
  | .explain f => return ⟨0, f.explanation⟩
  | .refuse f => do
    Workspace.say f.message
    return ⟨2, []⟩
  | .compile path => do
    match ← (Compilation.compile path : ExceptT Fatal m Outcome).run with
    | .ok _ => return ⟨0, []⟩
    | .error e => do
      Workspace.say (failureText path e)
      return ⟨1, []⟩

def run (args : List Text) : m Exit := (Request.ofArguments args).answer

end BlockLang.Command
