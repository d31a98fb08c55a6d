import BlockLang.Storage.Fault
import BlockLang.Text.Bytes
import BlockLang.Text.Pieces
import Std.Data.TreeMap.Basic

/-!
# Stores

A store is the tree of files and directories of a system, with a working directory somewhere in it.
A path is followed name by name, from the root if it starts with a slash and from the working
directory otherwise: single dots stay where they are, double dots lead to the directory around, and
a file has nothing below it. A path has to be shorter than 4096 bytes, a name in it not longer than
255.
-/

namespace BlockLang

/-- What can be at a location. -/
inductive Node where
  | file (content : ByteArray)
  | directory

def Node.isDirectory : Node → Bool
  | .file _ => false
  | .directory => true

/-- The names that lead from the root to a file or directory. -/
abbrev Location := List Text

structure Store where
  nodes : Std.TreeMap Location Node
  /-- The location of the working directory. -/
  here : Location

/-- The number of bytes that a path has to stay below. -/
def pathLimit : Nat := 4096

/-- The number of bytes that a name may have. -/
def nameLimit : Nat := 255

structure Route where
  /-- Whether the path starts at the root instead of the working directory. -/
  isAbsolute : Bool
  names : List Text
  /-- Whether the path ends in a slash, so that it can only stand for a directory. -/
  endsInSlash : Bool
  deriving DecidableEq, Repr

/-- Takes a path apart; the empty path leads nowhere, and NUL cannot be in a path. -/
def Route.ofPath (path : Text) : Except StorageFault Route :=
  if '\x00' ∈ path then .error .nulInPath
  else if path = [] then .error .notFound
  else if pathLimit ≤ path.byteLength then .error .nameTooLong
  else
    .ok ⟨path.head? = some '/', (Text.pieces '/' path).filter (· ≠ []), path.getLast? = some '/'⟩

/-- A place that a path leads to. -/
inductive Spot where
  | directory (location : Location)
  | file (location : Location) (content : ByteArray)

namespace Store

/-- The store with nothing but a root. -/
def empty : Store := ⟨Std.TreeMap.empty, []⟩

/-- What is at a location; the working directory and those around it are always there. -/
def node? (s : Store) (l : Location) : Option Node :=
  if l <+: s.here then some .directory else s.nodes[l]?

/-! ## Following a path -/

/-- Follows one name; the directory around the root is the root. -/
def enter (s : Store) (x : Text) : Spot → Except StorageFault Spot
  | .file _ _ => .error .notDirectory
  | .directory l =>
    if x = ['.'] then .ok (.directory l)
    else if x = ['.', '.'] then .ok (.directory l.dropLast)
    else if nameLimit < x.byteLength then .error .nameTooLong
    else
      match s.node? (l ++ [x]) with
      | none => .error .notFound
      | some .directory => .ok (.directory (l ++ [x]))
      | some (.file b) => .ok (.file (l ++ [x]) b)

def walk (s : Store) (spot : Spot) (xs : List Text) : Except StorageFault Spot :=
  xs.foldlM (fun p x => s.enter x p) spot

/-- The directory where a route begins. -/
def origin (s : Store) (r : Route) : Spot := .directory (if r.isAbsolute then [] else s.here)

def find (s : Store) (path : Text) : Except StorageFault Spot := do
  let r ← Route.ofPath path
  match ← s.walk (s.origin r) r.names with
  | .file l b => if r.endsInSlash then .error .notDirectory else .ok (.file l b)
  | p => .ok p

/-- The location of the file that a path leads to, whether it is there or is yet to be made. -/
def locate (s : Store) (path : Text) : Except StorageFault Location := do
  let r ← Route.ofPath path
  let around ← s.walk (s.origin r) r.names.dropLast
  match around, r.names.getLast? with
  | .file _ _, _ => .error .notDirectory
  | .directory _, none => .error .isDirectory
  | .directory l, some x =>
    if x = ['.'] ∨ x = ['.', '.'] ∨ r.endsInSlash then .error .isDirectory
    else if nameLimit < x.byteLength then .error .nameTooLong
    else if (s.node? (l ++ [x])).any Node.isDirectory then .error .isDirectory
    else .ok (l ++ [x])

/-! ## Reading and writing -/

def read (s : Store) (path : Text) : Except StorageFault ByteArray := do
  match ← s.find path with
  | .file _ b => .ok b
  | _ => .error .isDirectory

def readText (s : Store) (path : Text) : Except StorageFault Text := do
  match String.fromUTF8? (← s.read path) with
  | some t => .ok t.toList
  | none => .error .invalidText

def put (s : Store) (l : Location) (b : ByteArray) : Store :=
  { s with nodes := s.nodes.insert l (.file b) }

/-- The content at a location, nothing if there is no file. -/
def contentAt (s : Store) (l : Location) : ByteArray :=
  match s.node? l with
  | some (.file b) => b
  | _ => ByteArray.empty

/-- Writes a file, in place of what it held. -/
def write (s : Store) (path : Text) (b : ByteArray) : Except StorageFault Store := do
  return s.put (← s.locate path) b

/-- Writes at the end of a file, which is made if it is not there. -/
def append (s : Store) (path : Text) (b : ByteArray) : Except StorageFault Store := do
  let l ← s.locate path
  return s.put l (s.contentAt l ++ b)

/-- Makes a directory, if nothing is there; slashes at the end of the path do not count. -/
def makeDirectory (s : Store) (path : Text) : Except StorageFault Store := do
  let l ← s.locate (path.reverse.dropWhile (· == '/')).reverse
  return { s with nodes := s.nodes.insertIfNew l .directory }

/-- Removes a file, or a directory with all that is in it. -/
def remove (s : Store) (path : Text) : Except StorageFault Store := do
  match ← s.find path with
  | .directory l | .file l _ =>
    return { s with nodes := s.nodes.filter fun k _ => !l.isPrefixOf k }

end Store

end BlockLang
