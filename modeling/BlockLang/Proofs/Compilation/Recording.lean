import BlockLang.Proofs.Compilation.Desk

/-!
# What the second stage records

With nothing in its way, the second stage adds its diagnostics to the log and lists the symbols. It
succeeds if the log has stayed blank, which it does exactly if there was nothing to add.
-/

namespace BlockLang.Compilation

open Desk

/-- The paths of the log and of the listings lead to three different files. -/
structure Outlets (s : Store) (paths : ArtifactPaths) (j k l : Location) : Prop where
  toLog : s.Leads paths.log j
  toProcedures : s.Leads paths.procedureList k
  toVariables : s.Leads paths.variableList l
  nodup : [j, k, l].Nodup

variable {d : Desk} {paths : ArtifactPaths} {j k l : Location} {old : Text} {o : Outcome}

theorem Outlets.ne {s : Store} (h : Outlets s paths j k l) : j ≠ k ∧ j ≠ l ∧ k ≠ l := by
  simpa [and_assoc] using h.nodup

theorem Outlets.put {s : Store} {path : Text} {i : Location} (h : Outlets s paths j k l)
    (hi : s.Leads path i) (b : ByteArray) : Outlets (s.put i b) paths j k l where
  toLog := h.toLog.put hi b
  toProcedures := h.toProcedures.put hi b
  toVariables := h.toVariables.put hi b
  nodup := h.nodup

/-! ## Recording -/

/-- The desk after some diagnostics were added to the log and told, and the symbols were listed. -/
def recorded (d : Desk) (j k l : Location) (old : Text) (o : Outcome) : Desk :=
  (((d.put j (old ++ Log.ofDiagnostics o.errors)).tell (Log.ofDiagnostics o.errors)).put k
    (Listing.ofProcedures o.symbols)).put l (Listing.ofVariables o.symbols)

theorem Outlets.node?_recorded (h : Outlets d.store paths j k l) (old : Text) (o : Outcome)
    (x : Location) : (recorded d j k l old o).store.node? x =
      if l = x then some (.file (Listing.ofVariables o.symbols).bytes)
      else if k = x then some (.file (Listing.ofProcedures o.symbols).bytes)
      else if j = x then some (.file (old ++ Log.ofDiagnostics o.errors).bytes)
      else d.store.node? x := by
  rw [recorded, node?_put, node?_put, store_tell, node?_put]
  · exact h.toLog.not_around
  · exact h.toProcedures.not_around
  · exact h.toVariables.not_around

theorem Outlets.recorded (h : Outlets d.store paths j k l) (old : Text) (o : Outcome) :
    Outlets (recorded d j k l old o).store paths j k l := by
  have hlog := h.put h.toLog (old ++ Log.ofDiagnostics o.errors).bytes
  have hproc := hlog.put hlog.toProcedures (Listing.ofProcedures o.symbols).bytes
  exact hproc.put hproc.toVariables (Listing.ofVariables o.symbols).bytes

theorem Outlets.leaves_recorded (h : Outlets d.store paths j k l) (old : Text) (o : Outcome) :
    Leaves d (Compilation.recorded d j k l old o)
      [(paths.log, old ++ Log.ofDiagnostics o.errors),
        (paths.procedureList, Listing.ofProcedures o.symbols),
        (paths.variableList, Listing.ofVariables o.symbols)]
      (Log.ofDiagnostics o.errors) where
  holds := by
    obtain ⟨hjk, hjl, hkl⟩ := h.ne
    have h' := h.recorded old o
    simp only [List.forall_mem_cons]
    refine ⟨h'.toLog.read_of_node? ?_, h'.toProcedures.read_of_node? ?_,
      h'.toVariables.read_of_node? ?_, by simp⟩
    · rw [h.node?_recorded, if_neg hjl.symm, if_neg hjk.symm, if_pos rfl]
    · rw [h.node?_recorded, if_neg hkl.symm, if_pos rfl]
    · rw [h.node?_recorded, if_pos rfl]
  others x hx := by
    simp only [List.forall_mem_cons, h.toLog.locate, h.toProcedures.locate, h.toVariables.locate,
      ne_eq, Except.ok.injEq] at hx
    rw [h.node?_recorded, if_neg hx.2.2.1, if_neg hx.2.1, if_neg hx.1]
  said := rfl

/-- What is recorded decides the verdict, as long as the log counts the diagnostics one by one. -/
theorem Outlets.run_recordOutcome (h : Outlets d.store paths j k l)
    (hold : d.store.contentAt j = old.bytes)
    (hcount : Log.count (old ++ Log.ofDiagnostics o.errors) = o.errors.length) :
    d.run (recordOutcome paths o) =
      (if o.hasErrors then .error (.loggedErrors o.errors.length paths.log) else .ok o,
        Compilation.recorded d j k l old o) := by
  have happend := run_appendLog h.toLog hold o.errors
  have hput := h.put h.toLog (old ++ Log.ofDiagnostics o.errors).bytes
  have hlists := run_writeListings
    (d := (d.put j (old ++ Log.ofDiagnostics o.errors)).tell (Log.ofDiagnostics o.errors))
    hput.toProcedures hput.toVariables o.symbols
  have hlogged : (Compilation.recorded d j k l old o).store.readText paths.log =
      .ok (old ++ Log.ofDiagnostics o.errors) := by
    obtain ⟨hjk, hjl, -⟩ := h.ne
    refine (h.recorded old o).toLog.readText_of_node? ?_
    rw [h.node?_recorded, if_neg hjl.symm, if_neg hjk.symm, if_pos rfl]
  have hend : (Compilation.recorded d j k l old o).run (ensureClean paths) =
      (if 0 < o.errors.length then .error (.loggedErrors o.errors.length paths.log) else .ok (),
        Compilation.recorded d j k l old o) := by
    have hcheck := run_ensureClean_eq Workspace.shows_desk (Compilation.recorded d j k l old o) paths
    rw [checkLog_of_ok hlogged, hcount] at hcheck
    exact hcheck
  rw [recordOutcome, run_bind_ok happend, run_bind_ok (run_sayAll _ _), run_bind_ok hlists]
  change (Compilation.recorded d j k l old o).run (ensureClean paths >>= fun _ => pure o) = _
  cases he : o.errors with
  | nil =>
      rw [he] at hend
      rw [run_bind_ok hend]
      simp [Outcome.hasErrors, he, run_pure]
  | cons e es =>
      rw [he] at hend
      rw [run_bind_error hend]
      simp [Outcome.hasErrors, he]

/-! ## The second stage -/

def analysisBanner (paths : ArtifactPaths) : Text :=
  "*** syntax analysis: ".toList ++ paths.tokenFile ++ ['\n']

theorem run_analyseFile_of_examine (hlog : checkLog d.store.readText paths.log = .ok ())
    (h : examine d.store.readText paths = .ok o) :
    d.run (analyseFile paths) = (d.tell (analysisBanner paths)).run (recordOutcome paths o) := by
  have hrun := run_analyseFile_eq Workspace.shows_desk d paths
  rw [hlog, h] at hrun
  exact hrun

end BlockLang.Compilation
