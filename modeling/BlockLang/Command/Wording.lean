import BlockLang.Command.Request
import BlockLang.Fatal
import BlockLang.Text.Terminal

/-!
# Texts of the command

What the command says about itself, about its arguments and about a run that has failed. Of the
arguments that it does not understand, it repeats what a terminal shows.
-/

namespace BlockLang.Command

/-! ## Explanations -/

/-- What the command is for, and how it is used. -/
def helpText : Text :=
  ("Tokenize and parse a program, writing .dyd .err .pro and .var files\n\n" ++
    "Usage: simplec <INPUT>\n\n" ++
    "Arguments:\n  <INPUT>  Source file; artifacts are written next to it\n\n" ++
    "Options:\n  -h, --help     Print help\n  -V, --version  Print version\n").toList

def versionText : Text := "simplec 0.1.0\n".toList

def Flag.explanation : Flag → Text
  | help => helpText
  | version => versionText

/-! ## Usage faults -/

def hintText : Text := "\nFor more information, try '--help'.\n".toList

/-- How the command is used, in one line, with the flag in question if there is one. -/
def usageText (flag? : Option Flag) : Text :=
  "\nUsage: simplec ".toList ++ (flag?.map fun f => f.spelling ++ [' ']).getD [] ++
    "<INPUT>\n".toList

/-- What to do about an option that is none. -/
def adviceText (option : Text) : Option Flag → Text
  | some f => "\n  tip: a similar argument exists: '".toList ++ f.spelling ++ "'\n".toList
  | none =>
    "\n  tip: to pass '".toList ++ Terminal.shown option ++ "' as a value, use '-- ".toList ++
      Terminal.shown option ++ "'\n".toList

/-- What is wrong with an argument that the command has no use for. -/
def unexpectedText (arg : Text) : Text :=
  "error: unexpected argument '".toList ++ Terminal.shown arg ++ "' found\n".toList

def UsageFault.message : UsageFault → Text
  | noInput =>
    "error: the following required arguments were not provided:\n  <INPUT>\n".toList ++
      usageText none ++ hintText
  | emptyInput =>
    "error: a value is required for '<INPUT>' but none was supplied\n".toList ++ hintText
  | unexpected arg => unexpectedText arg ++ usageText none ++ hintText
  | unknownOption option meant =>
    unexpectedText option ++ adviceText option meant ++ usageText meant ++ hintText
  | unexpectedValue f value =>
    "error: unexpected value '".toList ++ Terminal.shown value ++ "' for '".toList ++ f.spelling ++
      "' found; no more were expected\n".toList ++ usageText (some f) ++ hintText

/-! ## Failures -/

/-- Indents every line but the first. -/
def indent (width : Nat) (t : Text) : Text :=
  t.flatMap fun c => if c = '\n' then '\n' :: List.replicate width ' ' else [c]

/-- The report of a fatal error, with the storage fault behind it if there is one. -/
def failureText (path : Text) (e : Fatal) : Text :=
  "Error: compiling ".toList ++ path ++ "\n\nCaused by:\n".toList ++
    match e.cause? with
    | none => "    ".toList ++ indent 4 e.message ++ ['\n']
    | some cause =>
      "    0: ".toList ++ indent 7 e.message ++
        "\n    1: ".toList ++ indent 7 cause.message ++ ['\n']

end BlockLang.Command
