import BlockLang.Compilation
import BlockLang.Proofs.Artifact.Log
import BlockLang.Proofs.Artifact.TokenFile
import BlockLang.Proofs.Compilation.Examination
import BlockLang.Proofs.Storage.Locations

/-!
# Work at a desk

What each part of a compilation does to a desk, as long as its paths lead to files.
-/

namespace BlockLang

namespace Desk

/-- Carries out some work, with what comes of it and of the desk. -/
def run {α : Type} (d : Desk) (x : ExceptT Fatal (StateM Desk) α) : Except Fatal α × Desk :=
  (ExceptT.run x).run d

def put (d : Desk) (k : Location) (t : Text) : Desk := { d with store := d.store.put k t.bytes }

def tell (d : Desk) (t : Text) : Desk := { d with said := d.said ++ t }

variable {α β : Type} {d d' : Desk}

theorem run_pure (d : Desk) (a : α) : d.run (pure a) = (.ok a, d) := rfl

theorem run_bind_ok {x : ExceptT Fatal (StateM Desk) α} {a : α} (h : d.run x = (.ok a, d'))
    (f : α → ExceptT Fatal (StateM Desk) β) : d.run (x >>= f) = d'.run (f a) :=
  Workspace.run_bind_ok h f

theorem run_bind_error {x : ExceptT Fatal (StateM Desk) α} {e : Fatal}
    (h : d.run x = (.error e, d')) (f : α → ExceptT Fatal (StateM Desk) β) :
    d.run (x >>= f) = (.error e, d') :=
  Workspace.run_bind_error h f

theorem tell_tell (d : Desk) (t u : Text) : (d.tell t).tell u = d.tell (t ++ u) := by
  simp [tell]

theorem tell_nil (d : Desk) : d.tell [] = d := by
  simp [tell]

@[simp] theorem store_tell (d : Desk) (t : Text) : (d.tell t).store = d.store := rfl

theorem node?_put (d : Desk) {k : Location} (hk : ¬ k <+: d.store.here) (t : Text)
    (x : Location) :
    (d.put k t).store.node? x = if k = x then some (.file t.bytes) else d.store.node? x :=
  Store.node?_put d.store hk _ x

end Desk

namespace Compilation

open Desk

variable {d : Desk} {path : Text} {k : Location}

/-- From one desk to another, some files have got their texts, nothing else in the store has
changed, and something was said. -/
structure Leaves (d d' : Desk) (files : List (Text × Text)) (told : Text) : Prop where
  holds : ∀ f ∈ files, d'.store.read f.1 = .ok (Text.bytes f.2)
  others : ∀ x, (∀ f ∈ files, d.store.locate f.1 ≠ .ok x) → d'.store.node? x = d.store.node? x
  said : d'.said = d.said ++ told

/-! ## Artifacts -/

theorem run_readSource {t : Text} (h : d.store.readText path = .ok t) :
    d.run (readSource path) = (.ok t, d) := by
  have hrun := run_readSource_eq Workspace.shows_desk d path
  rw [sourceIn, h] at hrun
  exact hrun

theorem run_write_eq (d : Desk) (path t : Text) :
    let u := d.update (d.store.write path t.bytes)
    d.run (Workspace.write path t) = (.ok u.1, u.2) := rfl

theorem run_append_eq (d : Desk) (path t : Text) :
    let u := d.update (d.store.append path t.bytes)
    d.run (Workspace.append path t) = (.ok u.1, u.2) := rfl

theorem run_write (h : d.store.Leads path k) (t : Text) :
    d.run (Workspace.write path t) = (.ok (.ok ()), d.put k t) := by
  rw [run_write_eq, h.write]
  rfl

theorem run_append (h : d.store.Leads path k) {t : Text}
    (ht : d.store.contentAt k = t.bytes) (u : Text) :
    d.run (Workspace.append path u) = (.ok (.ok ()), d.put k (t ++ u)) := by
  have hc : d.store.contentAt k ++ u.bytes = (t ++ u).bytes := by
    rw [ht, Text.bytes_append]
  rw [run_append_eq, h.append, hc]
  rfl

theorem run_write_of_locate_error {e : StorageFault} (h : d.store.locate path = .error e)
    (t : Text) : d.run (Workspace.write path t) = (.ok (.error e), d) := by
  rw [run_write_eq, Store.write, h]
  rfl

theorem run_append_of_locate_error {e : StorageFault} (h : d.store.locate path = .error e)
    (t : Text) : d.run (Workspace.append path t) = (.ok (.error e), d) := by
  rw [run_append_eq, Store.append, h]
  rfl

theorem run_writeTokens (h : d.store.Leads path k) (ts : List Token) :
    d.run (writeTokens path ts) = (.ok (), d.put k (TokenFile.encode ts)) := by
  rw [writeTokens, run_bind_ok (run_write h _)]
  rfl

section Log

variable {φ : Type} [Fault φ]

theorem run_createLog (h : d.store.Leads path k) (ds : List (Diagnostic φ)) :
    d.run (createLog path ds) = (.ok (), d.put k (Log.ofDiagnostics ds)) := by
  rw [createLog, run_bind_ok (run_write h _)]
  rfl

theorem run_appendLog (h : d.store.Leads path k) {t : Text}
    (ht : d.store.contentAt k = t.bytes) (ds : List (Diagnostic φ)) :
    d.run (appendLog path ds) = (.ok (), d.put k (t ++ Log.ofDiagnostics ds)) := by
  rw [appendLog, run_bind_ok (run_append h ht _)]
  rfl

theorem run_sayAll (d : Desk) (ds : List (Diagnostic φ)) :
    d.run (sayAll ds) = (.ok (), d.tell (Log.ofDiagnostics ds)) := by
  induction ds generalizing d with
  | nil =>
      rw [show Log.ofDiagnostics ([] : List (Diagnostic φ)) = [] from rfl, tell_nil]
      rfl
  | cons e ds ih =>
      have hsay : d.run (sayLine e.render) = (.ok (), d.tell (e.render ++ ['\n'])) := rfl
      have hrest := ih (d.tell (e.render ++ ['\n']))
      rw [tell_tell, sayAll, List.forM_eq_forM] at hrest
      rw [sayAll, List.forM_eq_forM, List.forM_cons, run_bind_ok hsay, hrest]
      simp [Log.ofDiagnostics_cons]

end Log

theorem run_writeListings {paths : ArtifactPaths} {j : Location}
    (hp : d.store.Leads paths.procedureList j) (hv : d.store.Leads paths.variableList k)
    (t : SymbolTable) : d.run (writeListings paths t) =
      (.ok (), (d.put j (Listing.ofProcedures t)).put k (Listing.ofVariables t)) := by
  rw [writeListings, run_bind_ok (run_write hp _)]
  have hv' : (d.put j (Listing.ofProcedures t)).store.Leads paths.variableList k := hv.put hp _
  have hw : (d.put j (Listing.ofProcedures t)).run (written paths.procedureList (.ok ())) =
    (.ok (), d.put j (Listing.ofProcedures t)) := rfl
  rw [run_bind_ok hw, run_bind_ok (run_write hv' _)]
  rfl

end Compilation

end BlockLang
