import BlockLang.Proofs.Compilation.Refinement
import BlockLang.Proofs.Storage.Frame

/-!
# What a compilation leaves alone

Whatever is in the store and however it ends, a compilation writes at the paths of its artifacts and
nowhere else. The source file keeps its content unless its path is that of an artifact; one that has
the path of its own token file loses it.
-/

namespace BlockLang

namespace Compilation

open Desk

variable {α β : Type} {paths : List Text} {path : Text}

/-! ## Confined work -/

/-- Whatever the desk and however it ends, some work writes at the given paths only. -/
def Confined (paths : List Text) (x : ExceptT Fatal (StateM Desk) α) : Prop :=
  ∀ d : Desk, Store.Frames paths d.store (d.run x).2.store

theorem confined_pure (a : α) : Confined paths (pure a) := fun d => .refl paths d.store

theorem confined_throw (e : Fatal) :
    Confined paths (throw e : ExceptT Fatal (StateM Desk) α) := fun d => .refl paths d.store

theorem Confined.bind {x : ExceptT Fatal (StateM Desk) α} {f : α → ExceptT Fatal (StateM Desk) β}
    (hx : Confined paths x) (hf : ∀ a, Confined paths (f a)) : Confined paths (x >>= f) := by
  intro d
  have hd := hx d
  cases h : d.run x with
  | mk r d' =>
      rw [h] at hd
      cases r with
      | ok a =>
          rw [run_bind_ok h]
          exact hd.trans (hf a d')
      | error e =>
          rw [run_bind_error h]
          exact hd

theorem confined_read (p : Text) :
    Confined paths (Workspace.read p : ExceptT Fatal (StateM Desk) _) :=
  fun d => .refl paths d.store

theorem confined_say (t : Text) :
    Confined paths (Workspace.say t : ExceptT Fatal (StateM Desk) _) :=
  fun d => .refl paths d.store

theorem confined_write (hp : path ∈ paths) (t : Text) :
    Confined paths (Workspace.write path t : ExceptT Fatal (StateM Desk) _) := by
  intro d
  change Store.Frames paths d.store (d.update (d.store.write path t.bytes)).2.store
  rw [Store.write]
  cases hk : d.store.locate path with
  | error e => exact .refl paths d.store
  | ok k => exact .put hp hk t.bytes

theorem confined_append (hp : path ∈ paths) (t : Text) :
    Confined paths (Workspace.append path t : ExceptT Fatal (StateM Desk) _) := by
  intro d
  change Store.Frames paths d.store (d.update (d.store.append path t.bytes)).2.store
  rw [Store.append]
  cases hk : d.store.locate path with
  | error e => exact .refl paths d.store
  | ok k => exact .put hp hk _

/-! ## Artifacts -/

theorem confined_readSource (p : Text) :
    Confined paths (readSource p : ExceptT Fatal (StateM Desk) _) := by
  refine (confined_read p).bind fun r => ?_
  cases r with
  | ok t => exact confined_pure t
  | error e => exact confined_throw _

theorem confined_readTokens (p : Text) :
    Confined paths (readTokens p : ExceptT Fatal (StateM Desk) _) := by
  refine (confined_read p).bind fun r => ?_
  cases r with
  | error e => exact confined_throw _
  | ok t =>
      dsimp only
      split
      · exact confined_pure _
      · exact confined_throw _

theorem confined_countLogged (p : Text) :
    Confined paths (countLogged p : ExceptT Fatal (StateM Desk) _) := by
  refine (confined_read p).bind fun r => ?_
  split
  · exact confined_pure _
  · exact confined_pure _
  · exact confined_throw _

theorem confined_written (p : Text) (r : Except StorageFault Unit) :
    Confined paths (written p r : ExceptT Fatal (StateM Desk) _) := by
  cases r with
  | ok u => exact confined_pure ()
  | error e => exact confined_throw _

theorem confined_writeTokens (hp : path ∈ paths) (ts : List Token) :
    Confined paths (writeTokens path ts : ExceptT Fatal (StateM Desk) _) :=
  (confined_write hp _).bind (confined_written path)

section Log

variable {φ : Type} [Fault φ]

theorem confined_createLog (hp : path ∈ paths) (ds : List (Diagnostic φ)) :
    Confined paths (createLog path ds : ExceptT Fatal (StateM Desk) _) :=
  (confined_write hp _).bind (confined_written path)

theorem confined_appendLog (hp : path ∈ paths) (ds : List (Diagnostic φ)) :
    Confined paths (appendLog path ds : ExceptT Fatal (StateM Desk) _) :=
  (confined_append hp _).bind (confined_written path)

theorem confined_sayAll (ds : List (Diagnostic φ)) :
    Confined paths (sayAll ds : ExceptT Fatal (StateM Desk) _) := by
  intro d
  rw [run_sayAll]
  exact .refl paths d.store

end Log

variable {ps : ArtifactPaths}

theorem confined_writeListings (hp : ps.procedureList ∈ paths) (hv : ps.variableList ∈ paths)
    (t : SymbolTable) : Confined paths (writeListings ps t : ExceptT Fatal (StateM Desk) _) :=
  (confined_write hp _).bind fun r => (confined_written _ r).bind fun _ =>
    (confined_write hv _).bind (confined_written _)

theorem confined_ensureClean (ps : ArtifactPaths) :
    Confined paths (ensureClean ps : ExceptT Fatal (StateM Desk) _) := by
  refine (confined_countLogged ps.log).bind fun n => ?_
  split
  · exact confined_throw _
  · exact confined_pure ()

/-! ## Stages -/

theorem confined_reportFaults (hl : ps.log ∈ paths) (l : Lexed) :
    Confined paths (reportFaults ps l : ExceptT Fatal (StateM Desk) _) := by
  refine (confined_createLog hl _).bind fun _ => (confined_sayAll _).bind fun _ => ?_
  dsimp only
  split
  · exact (confined_throw _).bind fun _ => confined_pure l
  · exact confined_pure l

theorem confined_tokenizeFile (ht : ps.tokenFile ∈ paths) (hl : ps.log ∈ paths) :
    Confined paths (tokenizeFile ps : ExceptT Fatal (StateM Desk) _) :=
  (confined_readSource _).bind fun _ => (confined_say _).bind fun _ =>
    (confined_writeTokens ht _).bind fun _ => confined_reportFaults hl _

theorem confined_recordOutcome (hl : ps.log ∈ paths) (hp : ps.procedureList ∈ paths)
    (hv : ps.variableList ∈ paths) (o : Outcome) :
    Confined paths (recordOutcome ps o : ExceptT Fatal (StateM Desk) _) :=
  (confined_appendLog hl _).bind fun _ => (confined_sayAll _).bind fun _ =>
    (confined_writeListings hp hv _).bind fun _ => (confined_ensureClean ps).bind fun _ =>
      confined_pure _

theorem confined_analyseFile (hl : ps.log ∈ paths) (hp : ps.procedureList ∈ paths)
    (hv : ps.variableList ∈ paths) :
    Confined paths (analyseFile ps : ExceptT Fatal (StateM Desk) _) := by
  refine (confined_ensureClean ps).bind fun _ => (confined_say _).bind fun _ =>
    (confined_readTokens _).bind fun ts => (confined_readSource _).bind fun source => ?_
  split
  · exact confined_throw _
  · exact confined_recordOutcome hl hp hv _

theorem confined_proceed (hl : ps.log ∈ paths) (hp : ps.procedureList ∈ paths)
    (hv : ps.variableList ∈ paths) :
    Confined paths (proceed ps : ExceptT Fatal (StateM Desk) _) :=
  (confined_analyseFile hl hp hv).bind fun _ => (confined_say _).bind fun _ => confined_pure _

theorem confined_compile (path : Text) :
    Confined (ArtifactPaths.ofSource path).artifacts (compile path) := by
  refine (confined_tokenizeFile ?_ ?_).bind fun _ => confined_proceed ?_ ?_ ?_ <;>
    simp [ArtifactPaths.artifacts]

/-! ## The source file -/

theorem mem_artifacts {p : Text} : p ∈ (ArtifactPaths.ofSource path).artifacts ↔
    ∃ e ∈ artifactExtensions, Path.withExtension path e = p := by
  simp [ArtifactPaths.artifacts, ArtifactPaths.ofSource, artifactExtensions, eq_comm]

theorem not_mem_slash_of_mem_artifactExtensions : ∀ e ∈ artifactExtensions, '/' ∉ e := by
  decide

/-- No artifact lies where the source file is, except one that has its path. -/
theorem locate_ne_of_mem_artifacts {s : Store} {k : Location} {p : Text} {b : ByteArray}
    (hk : s.find path = .ok (.file k b)) (hp : p ∈ (ArtifactPaths.ofSource path).artifacts)
    (hne : p ≠ path) : s.locate p ≠ .ok k := by
  obtain ⟨f, n, l, hplaces, -, rfl, rfl⟩ := Store.exists_places hk
  obtain ⟨e, he, rfl⟩ := mem_artifacts.mp hp
  exact hplaces.locate_artifact_ne (not_mem_slash_of_mem_artifactExtensions e he) hne

/-- The source file is read as before, whatever was written at the paths of some artifacts. -/
theorem read_eq_of_frames {s t : Store} {k : Location} {b : ByteArray}
    (hk : s.find path = .ok (.file k b)) (h : Store.Frames paths s t)
    (hpaths : ∀ p ∈ paths, p ∈ (ArtifactPaths.ofSource path).artifacts ∧ p ≠ path) :
    t.read path = .ok b := by
  obtain ⟨hleads, hnode⟩ := Store.leads_of_find hk
  refine h.read_eq hleads (fun p hp => ?_) hnode
  exact locate_ne_of_mem_artifacts hk (hpaths p hp).1 (hpaths p hp).2

variable {d : Desk} {source : Text} {e : StorageFault}

theorem run_readSource_error (h : d.store.readText path = .error e) :
    d.run (readSource path) = (.error (.cannotOpenSource path e), d) := by
  have hrun := run_readSource_eq Workspace.shows_desk d path
  rw [sourceIn, h] at hrun
  exact hrun

/-- Without a source text nothing is done. -/
theorem run_compile_error (h : d.store.readText path = .error e) :
    d.run (compile path) = (.error (.cannotOpenSource path e), d) := by
  rw [compile, tokenizeFile]
  exact run_bind_error (run_bind_error (run_readSource_error h) _) _

/-- However a compilation ends, what is at a location to which no path of an artifact leads is left
as it is. So is the source file, unless it has the path of an artifact. -/
theorem compile_leaves_alone (d : Desk) (path : Text) :
    let paths := (ArtifactPaths.ofSource path).artifacts
    let d' := (d.run (compile path)).2
    (∀ x, (∀ p ∈ paths, d.store.locate p ≠ .ok x) → d'.store.node? x = d.store.node? x) ∧
    (path ∉ paths → d'.store.read path = d.store.read path) := by
  intro paths d'
  have hframes : Store.Frames paths d.store d'.store := confined_compile path d
  refine ⟨hframes.node?_eq, fun hpath => ?_⟩
  cases hread : d.store.readText path with
  | error e =>
      have hd : d' = d := congrArg Prod.snd (run_compile_error hread)
      rw [hd]
  | ok source =>
      obtain ⟨k, hk⟩ := Store.find_of_readText hread
      obtain ⟨hleads, hnode⟩ := Store.leads_of_find hk
      rw [hleads.read_of_node? hnode]
      refine read_eq_of_frames hk hframes fun p hp => ⟨hp, ?_⟩
      rintro rfl
      exact hpath hp

/-- A desk with a source file and an old log beside it. -/
def deskWithOldLog : Desk where
  store := (Store.empty.put ["a.err".toList] (Text.bytes "***LINE:7  old".toList)).put
    ["a.src".toList] (Text.bytes "begin read(x) end".toList)
  said := []

theorem compile_leaves_alone_oldLog :
    "a.src".toList ∉ (ArtifactPaths.ofSource "a.src".toList).artifacts ∧
    (deskWithOldLog.run (compile "a.src".toList)).2.store.read "a.src".toList =
      .ok (Text.bytes "begin read(x) end".toList) := by
  have hpath : "a.src".toList ∉ (ArtifactPaths.ofSource "a.src".toList).artifacts := by decide
  exact ⟨hpath, (compile_leaves_alone deskWithOldLog "a.src".toList).2 hpath⟩

/-! ## A source file in the place of an artifact -/

/-- A source file with the path of its token file does not have that of another artifact. -/
theorem ne_of_eq_tokenFile {s : Store} {k : Location} {b : ByteArray} {p : Text}
    (hk : s.find path = .ok (.file k b)) (htokens : (ArtifactPaths.ofSource path).tokenFile = path)
    (hp : p ∈ (ArtifactPaths.ofSource path).artifacts.tail) : p ≠ path := by
  rintro rfl
  obtain ⟨f, n, l, hplaces, -, hpath, -⟩ := Store.exists_places hk
  have hs : Path.Splits p f n := hpath ▸ hplaces.splits
  have hdyd := hs.name_eq_of_withExtension_eq hplaces.isName (by decide) htokens
  obtain ⟨e, he, hpe⟩ : ∃ e ∈ artifactExtensions.tail, Path.withExtension p e = p := by
    simpa [ArtifactPaths.artifacts, ArtifactPaths.ofSource, artifactExtensions, eq_comm] using hp
  have hslash := not_mem_slash_of_mem_artifactExtensions e (List.mem_of_mem_tail he)
  have hext := hs.name_eq_of_withExtension_eq hplaces.isName hslash hpe
  obtain rfl : "dyd".toList = e := by
    have heq := hdyd.symm.trans hext
    simpa using List.append_cancel_left heq
  exact absurd he (by decide)

/-- A source file that has the path of its token file is replaced by its tokens. -/
theorem read_compile_of_eq_tokenFile (hread : d.store.readText path = .ok source)
    (htokens : (ArtifactPaths.ofSource path).tokenFile = path) :
    (d.run (compile path)).2.store.read path =
      .ok (Text.bytes (TokenFile.encode (Lexed.ofSource source).tokens)) := by
  let paths := ArtifactPaths.ofSource path
  obtain ⟨k, hk⟩ := Store.find_of_readText hread
  obtain ⟨hleads, -⟩ := Store.leads_of_find hk
  let replaced := (d.tell (lexicalBanner paths)).put k
    (TokenFile.encode (Lexed.ofSource source).tokens)
  have hsource : d.run (readSource paths.source) = (.ok source, d) := run_readSource hread
  have hsay : d.run (sayLine ("*** lexical analysis: ".toList ++ paths.source)) =
    (.ok (), d.tell (lexicalBanner paths)) := rfl
  have hwrite : (d.tell (lexicalBanner paths)).run
      (writeTokens paths.tokenFile (Lexed.ofSource source).tokens) = (.ok (), replaced) := by
    refine run_writeTokens ?_ _
    rw [htokens]
    exact hleads
  have hrun : d.run (compile path) =
      replaced.run (reportFaults paths (Lexed.ofSource source) >>= fun _ => proceed paths) := by
    simp only [compile, tokenizeFile, bind_assoc]
    rw [run_bind_ok hsource, run_bind_ok hsay, run_bind_ok hwrite]
  have hk' : replaced.store.find path =
      .ok (.file k (Text.bytes (TokenFile.encode (Lexed.ofSource source).tokens))) := by
    have hleads' : replaced.store.Leads path k := hleads.put hleads _
    rw [hleads'.find, node?_put, if_pos rfl]
    exact hleads.not_around
  -- what comes after the token file is written elsewhere
  have hconfined : Confined paths.artifacts.tail
      (reportFaults paths (Lexed.ofSource source) >>= fun _ => proceed paths) := by
    refine (confined_reportFaults ?_ _).bind fun _ => confined_proceed ?_ ?_ ?_ <;>
      simp [ArtifactPaths.artifacts]
  rw [hrun]
  refine read_eq_of_frames hk' (hconfined replaced) fun p hp => ⟨List.mem_of_mem_tail hp, ?_⟩
  exact ne_of_eq_tokenFile hk htokens hp

/-- A desk with a program in a file that is named like a token file. -/
def deskWithNamesake : Desk where
  store := Store.empty.put ["prog.dyd".toList]
    (Text.bytes "begin integer x;x:=1;write(x)end".toList)
  said := []

theorem compile_replaces_source :
    deskWithNamesake.store.read "prog.dyd".toList =
      .ok (Text.bytes "begin integer x;x:=1;write(x)end".toList) ∧
    (deskWithNamesake.run (compile "prog.dyd".toList)).2.store.read "prog.dyd".toList ≠
      deskWithNamesake.store.read "prog.dyd".toList := by
  have hread : deskWithNamesake.store.readText "prog.dyd".toList =
      .ok "begin integer x;x:=1;write(x)end".toList := Store.readText_of_find rfl
  have hsource : deskWithNamesake.store.read "prog.dyd".toList =
      .ok (Text.bytes "begin integer x;x:=1;write(x)end".toList) := rfl
  refine ⟨hsource, fun heq => ?_⟩
  rw [read_compile_of_eq_tokenFile hread (by decide), hsource, Except.ok.injEq] at heq
  exact absurd (Text.bytes_injective heq) (by decide)

end Compilation

end BlockLang
