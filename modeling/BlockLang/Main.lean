import BlockLang.Command

/-!
# The program

The command on the files of the system.
-/

namespace BlockLang

/-- The fault that an error of the system stands for. The code of an error is given as it is or
negated; 20 and 21 are the codes of the two ways in which a path can be of the wrong type, 36 that
of a name that is too long. -/
def StorageFault.ofError : IO.Error → StorageFault
  | .noFileOrDirectory .. => .notFound
  | .inappropriateType _ code details =>
    if code == 20 || code == -20 then .notDirectory
    else if code == 21 || code == -21 then .isDirectory
    else .other details.toList
  | .invalidArgument _ code details =>
    if code == 36 || code == -36 then .nameTooLong else .other details.toList
  | e => .other e.toString.toList

/-- The result of an action on the file at a path, or the fault that it ended with. -/
def attempt {α : Type} (path : Text) (act : String → IO α) : IO (Except StorageFault α) := do
  if '\x00' ∈ path then return .error .nulInPath
  match ← (act (String.ofList path)).toBaseIO with
  | .ok a => return .ok a
  | .error e => return .error (.ofError e)

instance : Workspace IO where
  read path := do
    match ← attempt path fun p => IO.FS.readBinFile p with
    | .error e => return .error e
    | .ok b =>
      match String.fromUTF8? b with
      | some t => return .ok t.toList
      | none => return .error .invalidText
  write path text := attempt path fun p => IO.FS.writeFile p (String.ofList text)
  append path text := attempt path fun p => do
    let h ← IO.FS.Handle.mk p .append
    h.putStr (String.ofList text)
  say text := do (← IO.getStderr).putStr (String.ofList text)

end BlockLang

def main (args : List String) : IO UInt32 := do
  let exit ← (BlockLang.Command.run (args.map String.toList) : IO BlockLang.Command.Exit)
  (← IO.getStdout).putStr (String.ofList exit.output)
  return exit.code.toUInt32
