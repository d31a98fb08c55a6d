import BlockLang.Storage.Workspace

/-!
# Work in a workspace

How some work proceeds that can fail, one part after another, and what a workspace shows of its
files.
-/

namespace BlockLang.Workspace

variable {ε σ φ α β : Type} {s s' : σ}

/-- Carries out some work, with what comes of it and of the state. -/
def run (s : σ) (x : ExceptT ε (StateM σ) α) : Except ε α × σ := (ExceptT.run x).run s

theorem run_bind_ok {x : ExceptT ε (StateM σ) α} {a : α} (h : run s x = (.ok a, s'))
    (f : α → ExceptT ε (StateM σ) β) : run s (x >>= f) = run s' (f a) := by
  have h' : x s = (.ok a, s') := h
  have hbind : run s (x >>= f) = ExceptT.bindCont f (x s).1 (x s).2 := rfl
  rw [hbind, h']
  rfl

theorem run_bind_error {x : ExceptT ε (StateM σ) α} {e : ε} (h : run s x = (.error e, s'))
    (f : α → ExceptT ε (StateM σ) β) : run s (x >>= f) = (.error e, s') := by
  have h' : x s = (.error e, s') := h
  have hbind : run s (x >>= f) = ExceptT.bindCont f (x s).1 (x s).2 := rfl
  rw [hbind, h']
  rfl

/-! ## Looking at files -/

/-- A workspace shows its files: what is read is what `look` sees in them, and neither reading nor
telling the user something changes them. -/
structure Shows [Workspace (StateM σ)] (files : σ → φ)
    (look : φ → Text → Except StorageFault Text) : Prop where
  read : ∀ path s, (Workspace.read path : StateM σ _) s = (look (files s) path, s)
  say : ∀ text s, files ((Workspace.say text : StateM σ Unit) s).2 = files s

/-- A desk shows its store. -/
theorem shows_desk : Shows Desk.store Store.readText where
  read _ _ := rfl
  say _ _ := rfl

theorem Shows.run_read [Workspace (StateM σ)] {files : σ → φ}
    {look : φ → Text → Except StorageFault Text} (h : Shows files look) (s : σ) (path : Text) :
    run s (Workspace.read path : ExceptT ε (StateM σ) _) = (.ok (look (files s) path), s) := by
  have hlift : run s (Workspace.read path : ExceptT ε (StateM σ) _) =
    (.ok ((Workspace.read path : StateM σ _) s).1, ((Workspace.read path : StateM σ _) s).2) := rfl
  rw [hlift, h.read]

end BlockLang.Workspace
