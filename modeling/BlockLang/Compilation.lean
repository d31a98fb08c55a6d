import BlockLang.Analysis.Outcome
import BlockLang.Artifact.Listing
import BlockLang.Artifact.Log
import BlockLang.Artifact.Path
import BlockLang.Fatal
import BlockLang.Lexeme.Stream
import BlockLang.Storage.Workspace

/-!
# Compilation

A program is compiled in two stages that meet only in files. The lexical stage reads the source
file, writes the token file and starts the diagnostic log. The second stage reads the tokens back,
analyses them, adds its diagnostics to the log and lists the symbols. It does not begin while the
log holds a diagnostic, and it fails after its work if it has added one.
-/

namespace BlockLang.Compilation

variable {m : Type → Type} [Monad m] [Workspace m]

/-! ## Artifacts -/

def readSource (path : Text) : ExceptT Fatal m Text := do
  match ← Workspace.read path with
  | .ok t => return t
  | .error e => throw (.cannotOpenSource path e)

/-- Fails for a file that could not be written. -/
def written (path : Text) : Except StorageFault Unit → ExceptT Fatal m Unit
  | .ok _ => return
  | .error e => throw (.cannotWrite path e)

def writeTokens (path : Text) (ts : List Token) : ExceptT Fatal m Unit := do
  written path (← Workspace.write path (TokenFile.encode ts))

def readTokens (path : Text) : ExceptT Fatal m (List Token) := do
  match ← Workspace.read path with
  | .error e => throw (.cannotRead path e)
  | .ok t =>
    match TokenFile.decode t with
    | .ok ts => return ts
    | .error f => throw (.tokenFile f)

def createLog {φ : Type} [Fault φ] (path : Text) (ds : List (Diagnostic φ)) :
    ExceptT Fatal m Unit := do
  written path (← Workspace.write path (Log.ofDiagnostics ds))

/-- Adds some diagnostics to a log, which is started if it is not there. -/
def appendLog {φ : Type} [Fault φ] (path : Text) (ds : List (Diagnostic φ)) :
    ExceptT Fatal m Unit := do
  written path (← Workspace.append path (Log.ofDiagnostics ds))

/-- The number of diagnostics in a log; a log that is not there has none. -/
def countLogged (path : Text) : ExceptT Fatal m Nat := do
  match ← Workspace.read path with
  | .ok t => return Log.count t
  | .error .notFound => return 0
  | .error e => throw (.cannotRead path e)

def writeListings (paths : ArtifactPaths) (t : SymbolTable) : ExceptT Fatal m Unit := do
  written paths.procedureList (← Workspace.write paths.procedureList (Listing.ofProcedures t))
  written paths.variableList (← Workspace.write paths.variableList (Listing.ofVariables t))

/-! ## Stages -/

def sayLine (t : Text) : ExceptT Fatal m Unit := Workspace.say (t ++ ['\n'])

def sayAll {φ : Type} [Fault φ] (ds : List (Diagnostic φ)) : ExceptT Fatal m Unit :=
  ds.forM fun d => sayLine d.render

/-- Fails if the log holds a diagnostic. -/
def ensureClean (paths : ArtifactPaths) : ExceptT Fatal m Unit := do
  let n ← countLogged paths.log
  if n > 0 then throw (.loggedErrors n paths.log)

/-- Starts the log with the lexical faults, and fails if there are any. -/
def reportFaults (paths : ArtifactPaths) (lexed : Lexed) : ExceptT Fatal m Lexed := do
  createLog paths.log lexed.errors
  sayAll lexed.errors
  if lexed.hasErrors then throw (.lexicalErrors lexed.errors.length paths.log)
  return lexed

def tokenizeFile (paths : ArtifactPaths) : ExceptT Fatal m Lexed := do
  let source ← readSource paths.source
  sayLine ("*** lexical analysis: ".toList ++ paths.source)
  let lexed := Lexed.ofSource source
  writeTokens paths.tokenFile lexed.tokens
  reportFaults paths lexed

/-- What the second stage does when it has found nothing in its way. -/
def recordOutcome (paths : ArtifactPaths) (outcome : Outcome) : ExceptT Fatal m Outcome := do
  appendLog paths.log outcome.errors
  sayAll outcome.errors
  writeListings paths outcome.symbols
  ensureClean paths
  return outcome

def analyseFile (paths : ArtifactPaths) : ExceptT Fatal m Outcome := do
  ensureClean paths
  sayLine ("*** syntax analysis: ".toList ++ paths.tokenFile)
  let tokens ← readTokens paths.tokenFile
  let source ← readSource paths.source
  match Outcome.ofTokens tokens source with
  | .error e => throw (.sourceMismatch e)
  | .ok outcome => recordOutcome paths outcome

/-- What follows the lexical stage. -/
def proceed (paths : ArtifactPaths) : ExceptT Fatal m Outcome := do
  let outcome ← analyseFile paths
  sayLine ("*** done: ".toList ++ paths.source)
  return outcome

/-- Both stages for the source file at a path. -/
def compile (path : Text) : ExceptT Fatal m Outcome := do
  let paths := ArtifactPaths.ofSource path
  let _ ← tokenizeFile paths
  proceed paths

end BlockLang.Compilation
