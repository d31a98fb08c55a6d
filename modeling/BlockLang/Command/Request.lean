import BlockLang.Command.Flag
import BlockLang.Text.Pieces

/-!
# Requests

The command takes the path of one source file. Arguments are read from left to right, and the first
one that settles the matter does so: a flag, or an argument that is not understood. After `--` every
argument is a path.
-/

namespace BlockLang.Command

/-- Arguments that cannot be understood. -/
inductive UsageFault where
  | noInput
  | emptyInput
  | unexpected (arg : Text)
  /-- Something that looks like an option but is none, and the flag that it may have been meant
  for. -/
  | unknownOption (option : Text) (meant? : Option Flag)
  | unexpectedValue (flag : Flag) (value : Text)
  deriving DecidableEq, Repr

inductive Request where
  | explain (flag : Flag)
  | compile (path : Text)
  | refuse (fault : UsageFault)
  deriving DecidableEq, Repr

/-! ## Arguments -/

/-- What an argument is before `--`. -/
inductive Argument where
  | flag (flag : Flag)
  | separator
  | path
  | wrong (fault : UsageFault)
  deriving DecidableEq, Repr

namespace Argument

/-- Sorts an option of which `text` stands behind two dashes: a name, and a value behind an equals
sign if it has one. -/
def ofLong (text : Text) : Argument :=
  let (name, value?) :=
    match Text.splitFirst? '=' text with
    | some (name, value) => (name, some value)
    | none => (text, none)
  match Flag.ofName? name, value? with
  | some f, none => .flag f
  | some f, some value => .wrong (.unexpectedValue f value)
  | none, _ => .wrong (.unknownOption ('-' :: '-' :: name) (Flag.meant? name))

/-- Sorts an option of which `c` is the first character behind one dash. -/
def ofShort (c : Char) : Argument :=
  match Flag.ofLetter? c with
  | some f => .flag f
  | none => .wrong (.unknownOption ['-', c] none)

/-- Sorts an argument; of several characters behind one dash, the first counts. -/
def ofText : Text → Argument
  | ['-', '-'] => .separator
  | '-' :: '-' :: text => ofLong text
  | '-' :: c :: _ => ofShort c
  | _ => .path

end Argument

/-! ## Reading -/

/-- Asks for something that an empty path forestalls. -/
def Request.unlessEmpty (input : Option Text) (r : Request) : Request :=
  if input = some [] then .refuse .emptyInput else r

/-- Reads the arguments; `input` is the path, once there is one. -/
def readArguments (input : Option Text) (afterSeparator : Bool) : List Text → Request
  | [] =>
    match input with
    | none => .refuse .noInput
    | some path => Request.unlessEmpty input (.compile path)
  | arg :: args =>
    match if afterSeparator then .path else Argument.ofText arg with
    | .flag f => Request.unlessEmpty input (.explain f)
    | .separator => readArguments input true args
    | .wrong fault => .refuse fault
    | .path =>
      if input.isNone then readArguments (some arg) afterSeparator args
      else .refuse (.unexpected arg)

def Request.ofArguments (args : List Text) : Request := readArguments none false args

end BlockLang.Command
