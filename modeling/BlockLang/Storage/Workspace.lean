import BlockLang.Storage.Store

/-!
# Workspaces

A run reads and writes files by their paths and tells the user what it is doing. It needs nothing
else, so that it can work on the files of a system as well as on a store kept in memory.
-/

namespace BlockLang

/-- A place to work in: files, and somebody to tell things to. -/
class Workspace (m : Type → Type) where
  read : (path : Text) → m (Except StorageFault Text)
  /-- Writes a file, in place of what it held. -/
  write : (path text : Text) → m (Except StorageFault Unit)
  /-- Writes at the end of a file, which is made if it is not there. -/
  append : (path text : Text) → m (Except StorageFault Unit)
  say : (text : Text) → m Unit

/-- What can fail for other reasons works in the same place. -/
instance {ε : Type} {m : Type → Type} [Monad m] [Workspace m] : Workspace (ExceptT ε m) where
  read path := ExceptT.lift (Workspace.read path)
  write path text := ExceptT.lift (Workspace.write path text)
  append path text := ExceptT.lift (Workspace.append path text)
  say text := ExceptT.lift (Workspace.say text)

structure Desk where
  store : Store
  /-- All that was told to the user. -/
  said : Text

namespace Desk

/-- Changes the store, unless the change is refused. -/
def update (d : Desk) : Except StorageFault Store → Except StorageFault Unit × Desk
  | .ok s => (.ok (), { d with store := s })
  | .error e => (.error e, d)

instance : Workspace (StateM Desk) where
  read path := fun d => (d.store.readText path, d)
  write path text := fun d => d.update (d.store.write path text.bytes)
  append path text := fun d => d.update (d.store.append path text.bytes)
  say text := fun d => ((), { d with said := d.said ++ text })

end Desk

end BlockLang
