import BlockLang.Text.Bytes
import BlockLang.Text.Pieces

/-!
# Paths of artifacts

Every artifact of a run lies beside the source file and has its name, with an extension of its own
in place of the last one. The name in a path is its last piece between slashes, where empty pieces
and single dots at the end do not count; `..` is no name. The extension of a name is what follows
its last dot, unless that dot is its first character.
-/

namespace BlockLang.Path

/-- The pieces of a path, the last one first, from the last one that counts. -/
def piecesBack (path : Text) : List Text :=
  (Text.pieces '/' path).reverse.dropWhile fun p => p == [] || p == ['.']

/-- A name split at its last dot, if it has an extension. -/
def splitName? (name : Text) : Option (Text × Text) := do
  let (e, s) ← Text.splitFirst? '.' name.reverse
  if s.isEmpty then none else some (s.reverse, e.reverse)

def extension? (path : Text) : Option Text :=
  match piecesBack path with
  | [] => none
  | name :: _ => if name = ['.', '.'] then none else (splitName? name).map (·.2)

/-- Cuts off the end of a path, as many bytes as its extension has. -/
def cutExtension (path : Text) : Text :=
  match extension? path with
  | none => path
  | some e => (Text.dropBytes (Text.byteLength e) path.reverse).reverse

/-- The path with `e` as its extension. A path that ends in slashes keeps part of its old extension
when that is cut off, and loses it as the extension of what is left. -/
def withExtension (path e : Text) : Text :=
  let cut := cutExtension path
  match piecesBack cut with
  | [] => cut
  | name :: outer =>
    if name = ['.', '.'] then cut
    else
      let stem := ((splitName? name).map (·.1)).getD name
      Text.join '/' (((stem ++ '.' :: e) :: outer).reverse)

end BlockLang.Path

namespace BlockLang

/-- The paths of the source file and of the artifacts beside it. -/
structure ArtifactPaths where
  source : Text
  tokenFile : Text
  log : Text
  procedureList : Text
  variableList : Text
  deriving DecidableEq, Repr

def ArtifactPaths.ofSource (source : Text) : ArtifactPaths where
  source := source
  tokenFile := Path.withExtension source "dyd".toList
  log := Path.withExtension source "err".toList
  procedureList := Path.withExtension source "pro".toList
  variableList := Path.withExtension source "var".toList

end BlockLang
