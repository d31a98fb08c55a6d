import BlockLang.Proofs.Analysis.Reachability
import BlockLang.Proofs.Artifact.Decoding
import BlockLang.Proofs.Compilation.Refinement
import BlockLang.Proofs.Storage.Frame

/-!
# The verdict of the second stage

Whoever has written the token file and whatever blank text is left in the log, the second stage
counts its own diagnostics and nothing else, and it lists the symbols whether or not there are any.
-/

namespace BlockLang.Compilation

open Desk
open Text (isBlankText)

/-! ## The files that are written -/

/-- Where the log and the listings of a source file can be written, they are three files. -/
theorem exists_outlets {s : Store} {path source : Text} (hsource : s.readText path = .ok source)
    (hlog : s.IsWritable (ArtifactPaths.ofSource path).log)
    (hproc : s.IsWritable (ArtifactPaths.ofSource path).procedureList)
    (hvar : s.IsWritable (ArtifactPaths.ofSource path).variableList) :
    ∃ j k l, Outlets s (ArtifactPaths.ofSource path) j k l := by
  obtain ⟨i, hfind⟩ := Store.find_of_readText hsource
  obtain ⟨f, n, m, hp, -, rfl, rfl⟩ := Store.exists_places hfind
  exact ⟨_, _, _, {
    toLog := hp.leads_artifact (by decide) (by decide) hlog.isFileOrAbsent
    toProcedures := hp.leads_artifact (by decide) (by decide) hproc.isFileOrAbsent
    toVariables := hp.leads_artifact (by decide) (by decide) hvar.isFileOrAbsent
    nodup := by simp }⟩

/-- A log that is not there, or one that has nothing on any of its lines. -/
def HoldsBlank (s : Store) (path old : Text) : Prop :=
  (s.readText path = .error .notFound ∧ old = []) ∨
    (s.readText path = .ok old ∧ ∀ l ∈ Text.lines old, isBlankText l = true)

namespace HoldsBlank

variable {s : Store} {path old : Text}

theorem isBlankText (h : HoldsBlank s path old) : isBlankText old = true := by
  rcases h with ⟨-, rfl⟩ | ⟨-, hlines⟩
  · rfl
  · exact (Text.isBlankText_iff_lines old).mpr hlines

theorem checkLog_eq_ok (h : HoldsBlank s path old) : checkLog s.readText path = .ok () := by
  have hblank := h.isBlankText
  rcases h with ⟨hread, -⟩ | ⟨hread, -⟩
  · exact checkLog_of_notFound hread
  · rw [checkLog_of_ok hread, (Log.count_eq_zero_iff old).mpr hblank]
    rfl

theorem contentAt_eq {k : Location} (h : HoldsBlank s path old) (hk : s.Leads path k) :
    s.contentAt k = old.bytes := by
  rcases h with ⟨hread, rfl⟩ | ⟨hread, -⟩
  · exact hk.contentAt_of_notFound hread
  · obtain ⟨j, hj⟩ := Store.find_of_readText hread
    rw [hk.find] at hj
    split at hj
    · rename_i b hnode
      cases hj
      rw [Store.contentAt, hnode]
    · cases hj

end HoldsBlank

/-! ## The verdict -/

variable {d : Desk} {path old text source : Text} {ts : List Token} {o : Outcome}

/-- The second stage adds one line for each of its diagnostics to the blank text in the log and
lists the symbols. It fails with the number of these diagnostics if there are any, and succeeds
otherwise. Nothing else in the store changes. -/
theorem analyseFile_counts_own_errors
    (hlog : HoldsBlank d.store (ArtifactPaths.ofSource path).log old)
    (htext : d.store.readText (ArtifactPaths.ofSource path).tokenFile = .ok text)
    (hts : TokenFile.decode text = .ok ts) (hsource : d.store.readText path = .ok source)
    (ho : Outcome.ofTokens ts source = .ok o)
    (hwritable : ∀ p ∈ (ArtifactPaths.ofSource path).artifacts.tail, d.store.IsWritable p) :
    let paths := ArtifactPaths.ofSource path
    ∃ d', d.run (analyseFile paths) =
        (if o.hasErrors then .error (.loggedErrors o.errors.length paths.log) else .ok o, d') ∧
      Leaves d d'
        [(paths.log, old ++ Log.ofDiagnostics o.errors),
          (paths.procedureList, Listing.ofProcedures o.symbols),
          (paths.variableList, Listing.ofVariables o.symbols)]
        (analysisBanner paths ++ Log.ofDiagnostics o.errors) := by
  intro paths
  simp only [ArtifactPaths.artifacts, List.tail_cons, List.forall_mem_cons] at hwritable
  obtain ⟨j, k, l, houtlets⟩ := exists_outlets hsource hwritable.1 hwritable.2.1 hwritable.2.2.1
  have hexamine : examine d.store.readText paths = .ok o :=
    examine_eq_ok hlog.checkLog_eq_ok htext hts hsource ho
  have hcount : Log.count (old ++ Log.ofDiagnostics o.errors) = o.errors.length := by
    refine Outcome.count_append_errors (fun t ht => ?_) ho hlog.isBlankText
    exact ((TokenFile.decode_ok hts).1 t (Token.mem_significant.mp ht).1).lineFeed
  -- that the stage begins is told, which does not touch the store
  have hbegun : Outlets (d.tell (analysisBanner paths)).store paths j k l := houtlets
  have hold : (d.tell (analysisBanner paths)).store.contentAt j = old.bytes :=
    hlog.contentAt_eq houtlets.toLog
  refine ⟨recorded (d.tell (analysisBanner paths)) j k l old o, ?_, ?_⟩
  · rw [run_analyseFile_of_examine hlog.checkLog_eq_ok hexamine]
    exact hbegun.run_recordOutcome hold hcount
  · have hleaves := hbegun.leaves_recorded old o
    exact ⟨hleaves.holds, hleaves.others, by rw [hleaves.said]; simp [Desk.tell]⟩

/-- A desk in one directory, with blank text in the log, a token file that nobody else would write,
and its source in another. -/
def deskWithBlankLog : Desk where
  store := {
    nodes := .ofList [(["src".toList], Node.directory),
      (["src".toList, "a.err".toList], Node.file (Text.bytes " \t".toList)),
      (["src".toList, "a.dyd".toList], Node.file (Text.bytes "begin +01\r\nx\ty 10".toList)),
      (["src".toList, "a.src".toList], Node.file (Text.bytes "begin x\ty".toList))]
    here := ["work".toList] }
  said := []

/-- The tokens of that token file, one of which has a lexeme with a tab in it. -/
def tokensWithTab : List Token :=
  [⟨"begin".toList, .beginWord, 1⟩, ⟨"x\ty".toList, .identifier, 1⟩]

theorem analyseFile_counts_own_errors_blankLog :
    HoldsBlank deskWithBlankLog.store "../src/a.err".toList " \t".toList ∧
    ∃ (o : Outcome) (d' : Desk),
      deskWithBlankLog.run (analyseFile (.ofSource "../src/a.src".toList)) =
        (.error (.loggedErrors 4 "../src/a.err".toList), d') ∧
      d'.store.read "../src/a.err".toList =
        .ok (Text.bytes (" \t".toList ++ Log.ofDiagnostics o.errors)) := by
  have hlog : HoldsBlank deskWithBlankLog.store (ArtifactPaths.ofSource "../src/a.src".toList).log
      " \t".toList :=
    .inr ⟨Store.readText_of_find rfl, by decide⟩
  have htext : deskWithBlankLog.store.readText
      (ArtifactPaths.ofSource "../src/a.src".toList).tokenFile =
    .ok "begin +01\r\nx\ty 10".toList := Store.readText_of_find rfl
  have hts : TokenFile.decode "begin +01\r\nx\ty 10".toList = .ok tokensWithTab := rfl
  have hsource : deskWithBlankLog.store.readText "../src/a.src".toList = .ok "begin x\ty".toList :=
    Store.readText_of_find rfl
  have hlast : ((Parse.start (Token.significant tokensWithTab)
        "begin x\ty".toList).toOption.bind (Parse.after 16)).map
      (fun p => (p.reading.goals, p.session.errors.size)) = some ([], 4) := by decide +kernel
  obtain ⟨p, hp, heq⟩ := Parse.exists_reachable_of_after hlast
  obtain ⟨hgoals, hsize⟩ := Prod.mk.inj heq
  have ho := Parse.ofTokens_eq_ok_iff.mpr ⟨p, hp, Parse.step_eq_none_iff.mpr hgoals, rfl⟩
  have hlength : p.outcome.errors.length = 4 := by simpa [Parse.outcome] using hsize
  have hfaulty : p.outcome.hasErrors = true := by
    rw [Outcome.hasErrors, List.isEmpty_eq_false_iff.mpr (List.ne_nil_of_length_eq_add_one hlength)]
    rfl
  have hwritable : ∀ p ∈ (ArtifactPaths.ofSource "../src/a.src".toList).artifacts.tail,
      deskWithBlankLog.store.IsWritable p := by
    simp only [ArtifactPaths.artifacts, List.tail_cons, List.forall_mem_cons]
    exact ⟨⟨_, rfl⟩, ⟨_, rfl⟩, ⟨_, rfl⟩, by simp⟩
  obtain ⟨d', hrun, hleaves⟩ :=
    analyseFile_counts_own_errors hlog htext hts hsource ho hwritable
  rw [hfaulty, if_pos rfl, hlength] at hrun
  exact ⟨hlog, p.outcome, d', hrun, hleaves.holds (_, _) (.head _)⟩

end BlockLang.Compilation
