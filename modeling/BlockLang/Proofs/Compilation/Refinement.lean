import BlockLang.Proofs.Analysis.LineTracking
import BlockLang.Proofs.Compilation.Recording

/-!
# Compilation by files

A compilation whose stages meet only in files comes to what the same stages come to when the tokens
are handed over directly, whatever was in the files before. It leaves the artifacts and changes
nothing else.
-/

namespace BlockLang

def ArtifactPaths.artifacts (p : ArtifactPaths) : List Text :=
  [p.tokenFile, p.log, p.procedureList, p.variableList]

namespace Compilation

open Desk

structure FileLocations where
  source : Location
  tokenFile : Location
  log : Location
  procedureList : Location
  variableList : Location

/-- The paths of a run lead to five different files, and the source file holds a text. -/
structure Site (s : Store) (paths : ArtifactPaths) (k : FileLocations) (source : Text) : Prop where
  toSource : s.Leads paths.source k.source
  toTokenFile : s.Leads paths.tokenFile k.tokenFile
  toLog : s.Leads paths.log k.log
  toProcedures : s.Leads paths.procedureList k.procedureList
  toVariables : s.Leads paths.variableList k.variableList
  nodup : [k.source, k.tokenFile, k.log, k.procedureList, k.variableList].Nodup
  readable : s.node? k.source = some (.file (Text.bytes source))

theorem Site.ne_source {s : Store} {paths : ArtifactPaths} {k : FileLocations} {source : Text}
    (h : Site s paths k source) : k.tokenFile ≠ k.source ∧ k.log ≠ k.source ∧
      k.procedureList ≠ k.source ∧ k.variableList ≠ k.source := by
  refine ⟨?_, ?_, ?_, ?_⟩ <;> intro he <;> simpa [he] using h.nodup

theorem Site.ne_log {s : Store} {paths : ArtifactPaths} {k : FileLocations} {source : Text}
    (h : Site s paths k source) : k.source ≠ k.log ∧ k.tokenFile ≠ k.log ∧
      k.procedureList ≠ k.log ∧ k.variableList ≠ k.log := by
  refine ⟨?_, ?_, ?_, ?_⟩ <;> intro he <;> simpa [he] using h.nodup

theorem Site.ne_lists {s : Store} {paths : ArtifactPaths} {k : FileLocations} {source : Text}
    (h : Site s paths k source) : k.procedureList ≠ k.tokenFile ∧ k.variableList ≠ k.tokenFile ∧
      k.variableList ≠ k.procedureList := by
  refine ⟨?_, ?_, ?_⟩ <;> intro he <;> simpa [he] using h.nodup

theorem Site.put {s : Store} {paths : ArtifactPaths} {k : FileLocations} {source path : Text}
    {j : Location} (h : Site s paths k source) (hj : s.Leads path j) (hne : j ≠ k.source)
    (b : ByteArray) : Site (s.put j b) paths k source where
  toSource := h.toSource.put hj b
  toTokenFile := h.toTokenFile.put hj b
  toLog := h.toLog.put hj b
  toProcedures := h.toProcedures.put hj b
  toVariables := h.toVariables.put hj b
  nodup := h.nodup
  readable := by rw [Store.node?_put s hj.not_around, if_neg hne, h.readable]

variable {d : Desk} {paths : ArtifactPaths} {k : FileLocations} {source : Text}

/-! ## The lexical stage -/

def lexicalBanner (paths : ArtifactPaths) : Text :=
  "*** lexical analysis: ".toList ++ paths.source ++ ['\n']

def doneBanner (paths : ArtifactPaths) : Text := "*** done: ".toList ++ paths.source ++ ['\n']

/-- The desk after the lexical stage. -/
def tokenized (d : Desk) (paths : ArtifactPaths) (k : FileLocations) (source : Text) : Desk :=
  let lexed := Lexed.ofSource source
  (((d.tell (lexicalBanner paths)).put k.tokenFile (TokenFile.encode lexed.tokens)).put k.log
    (Log.ofDiagnostics lexed.errors)).tell (Log.ofDiagnostics lexed.errors)

theorem run_reportFaults {j : Location} (h : d.store.Leads paths.log j) (lexed : Lexed) :
    d.run (reportFaults paths lexed) =
      (if lexed.hasErrors then .error (.lexicalErrors lexed.errors.length paths.log) else .ok lexed,
        (d.put j (Log.ofDiagnostics lexed.errors)).tell (Log.ofDiagnostics lexed.errors)) := by
  rw [reportFaults, run_bind_ok (run_createLog h _), run_bind_ok (run_sayAll _ _)]
  cases lexed.hasErrors <;> rfl

theorem run_tokenizeFile (h : Site d.store paths k source) :
    d.run (tokenizeFile paths) =
      (if (Lexed.ofSource source).hasErrors
        then .error (.lexicalErrors (Lexed.ofSource source).errors.length paths.log)
        else .ok (Lexed.ofSource source), tokenized d paths k source) := by
  have hsay : d.run (sayLine ("*** lexical analysis: ".toList ++ paths.source)) =
    (.ok (), d.tell (lexicalBanner paths)) := rfl
  have htokens : (d.tell (lexicalBanner paths)).store.Leads paths.tokenFile k.tokenFile :=
    h.toTokenFile
  have hlog := h.toLog.put h.toTokenFile (TokenFile.encode (Lexed.ofSource source).tokens).bytes
  rw [tokenizeFile, run_bind_ok (run_readSource (h.toSource.readText_of_node? h.readable)),
    run_bind_ok hsay]
  dsimp only
  rw [run_bind_ok (run_writeTokens htokens _)]
  exact run_reportFaults hlog _

/-! ## The second stage -/

/-- The desk after the second stage. -/
def analysed (d : Desk) (paths : ArtifactPaths) (k : FileLocations) (o : Outcome) : Desk :=
  ((((d.tell (analysisBanner paths)).put k.log (Log.ofDiagnostics o.errors)).tell
    (Log.ofDiagnostics o.errors)).put k.procedureList (Listing.ofProcedures o.symbols)).put
    k.variableList (Listing.ofVariables o.symbols)

theorem analysed_eq (d : Desk) (paths : ArtifactPaths) (k : FileLocations) (o : Outcome) :
    analysed d paths k o =
      recorded (d.tell (analysisBanner paths)) k.log k.procedureList k.variableList [] o := rfl

theorem Site.outlets {s : Store} (h : Site s paths k source) :
    Outlets s paths k.log k.procedureList k.variableList where
  toLog := h.toLog
  toProcedures := h.toProcedures
  toVariables := h.toVariables
  nodup := h.nodup.sublist (.cons _ (.cons _ (.refl _)))

theorem run_analyseFile (h : Site d.store paths k source) {ts : List Token} {o : Outcome}
    (hts : d.store.node? k.tokenFile = some (.file (TokenFile.encode ts).bytes))
    (hlog : d.store.node? k.log = some (.file (Text.bytes [])))
    (hdecode : TokenFile.decode (TokenFile.encode ts) = .ok ts)
    (ho : Outcome.ofTokens ts source = .ok o)
    (hcount : Log.count (Log.ofDiagnostics o.errors) = o.errors.length) :
    d.run (analyseFile paths) =
      (if o.hasErrors then .error (.loggedErrors o.errors.length paths.log) else .ok o,
        analysed d paths k o) := by
  have hclean : checkLog d.store.readText paths.log = .ok () := by
    rw [checkLog_of_ok (h.toLog.readText_of_node? hlog)]
    rfl
  have hexamine : examine d.store.readText paths = .ok o :=
    examine_eq_ok hclean (h.toTokenFile.readText_of_node? hts) hdecode
      (h.toSource.readText_of_node? h.readable) ho
  have hold : d.store.contentAt k.log = Text.bytes [] := by rw [Store.contentAt, hlog]
  rw [run_analyseFile_of_examine hclean hexamine, analysed_eq]
  exact Outlets.run_recordOutcome (d := d.tell (analysisBanner paths)) h.outlets hold hcount

theorem Site.tokenized {d : Desk} (h : Site d.store paths k source) (t : Text) :
    Site (Compilation.tokenized d paths k t).store paths k source :=
  (h.put h.toTokenFile h.ne_source.1 _).put (h.toLog.put h.toTokenFile _) h.ne_source.2.1 _

theorem Site.analysed {d : Desk} (h : Site d.store paths k source) (o : Outcome) :
    Site (Compilation.analysed d paths k o).store paths k source := by
  have hlog := h.put h.toLog h.ne_source.2.1 (Log.ofDiagnostics o.errors).bytes
  have hproc := hlog.put hlog.toProcedures h.ne_source.2.2.1 (Listing.ofProcedures o.symbols).bytes
  exact hproc.put hproc.toVariables h.ne_source.2.2.2 _

/-! ## What is in the files -/

theorem Site.node?_tokenized {d : Desk} (h : Site d.store paths k source) (t : Text)
    (x : Location) : (Compilation.tokenized d paths k t).store.node? x =
      if k.log = x then some (.file (Log.ofDiagnostics (Lexed.ofSource t).errors).bytes)
      else if k.tokenFile = x then
        some (.file (TokenFile.encode (Lexed.ofSource t).tokens).bytes)
      else d.store.node? x := by
  simp only [Compilation.tokenized, store_tell]
  rw [node?_put, node?_put, store_tell]
  · exact h.toTokenFile.not_around
  · exact h.toLog.not_around

theorem Site.node?_analysed {d : Desk} (h : Site d.store paths k source) (o : Outcome)
    (x : Location) : (Compilation.analysed d paths k o).store.node? x =
      if k.variableList = x then some (.file (Listing.ofVariables o.symbols).bytes)
      else if k.procedureList = x then some (.file (Listing.ofProcedures o.symbols).bytes)
      else if k.log = x then some (.file (Log.ofDiagnostics o.errors).bytes)
      else d.store.node? x := by
  have houtlets : Outlets (d.tell (analysisBanner paths)).store paths k.log k.procedureList
    k.variableList := h.outlets
  rw [analysed_eq, houtlets.node?_recorded, store_tell, List.nil_append]

/-! ## The site of a source file -/

def artifactExtensions : List Text := ["dyd".toList, "err".toList, "pro".toList, "var".toList]

theorem exists_site {s : Store} {path source : Text} (hsource : s.readText path = .ok source)
    (hext : ∀ e ∈ artifactExtensions, Path.extension? path ≠ some e)
    (hfiles : ∀ p ∈ (ArtifactPaths.ofSource path).artifacts, s.IsFileOrAbsent p) :
    ∃ k, Site s (ArtifactPaths.ofSource path) k source := by
  obtain ⟨j, hfind⟩ := Store.find_of_readText hsource
  obtain ⟨f, n, l, hp, hnode, rfl, rfl⟩ := Store.exists_places hfind
  have hleads : ∀ e ∈ artifactExtensions,
      s.Leads (Path.withExtension (f ++ n) e) (l ++ [Path.stem n ++ '.' :: e]) := by
    intro e he
    have hshape : '/' ∉ e ∧ 2 ≤ e.length := by
      revert e
      decide
    exact hp.leads_artifact hshape.1 hshape.2 (hfiles _ (List.mem_map_of_mem he))
  -- an artifact never takes the place of the source file, whose extension is another
  have hne : ∀ e ∈ artifactExtensions, n ≠ Path.stem n ++ '.' :: e :=
    fun e he => hp.splits.ne_artifact hp.isName (hext e he)
  refine ⟨⟨l ++ [n], l ++ [Path.stem n ++ '.' :: "dyd".toList],
    l ++ [Path.stem n ++ '.' :: "err".toList], l ++ [Path.stem n ++ '.' :: "pro".toList],
    l ++ [Path.stem n ++ '.' :: "var".toList]⟩, ?_⟩
  simp only [artifactExtensions, List.forall_mem_cons] at hleads hne
  exact {
    toSource := ⟨f, n, l, hp, rfl, rfl⟩
    toTokenFile := hleads.1
    toLog := hleads.2.1
    toProcedures := hleads.2.2.1
    toVariables := hleads.2.2.2.1
    nodup := by simpa using ⟨hne.1, hne.2.1, hne.2.2.1, hne.2.2.2.1⟩
    readable := hnode }

/-! ## Refinement -/

theorem Site.leaves_tokenized (h : Site d.store paths k source) :
    Leaves d (Compilation.tokenized d paths k source)
      [(paths.tokenFile, TokenFile.encode (Lexed.ofSource source).tokens),
        (paths.log, Log.ofDiagnostics (Lexed.ofSource source).errors)]
      (lexicalBanner paths ++ Log.ofDiagnostics (Lexed.ofSource source).errors) where
  holds := by
    have h' := h.tokenized source
    simp only [List.forall_mem_cons]
    refine ⟨h'.toTokenFile.read_of_node? ?_, h'.toLog.read_of_node? ?_, by simp⟩
    · rw [h.node?_tokenized, if_neg h.ne_log.2.1.symm, if_pos rfl]
    · rw [h.node?_tokenized, if_pos rfl]
  others x hx := by
    simp only [List.forall_mem_cons, h.toTokenFile.locate, h.toLog.locate, ne_eq,
      Except.ok.injEq] at hx
    rw [h.node?_tokenized, if_neg hx.2.1, if_neg hx.1]
  said := by simp [Compilation.tokenized, Desk.tell, Desk.put]

/-- The desk after both stages of a run without lexical faults. -/
def compiled (d : Desk) (paths : ArtifactPaths) (k : FileLocations) (source : Text)
    (o : Outcome) : Desk :=
  (analysed (tokenized d paths k source) paths k o).tell
    (if o.hasErrors then [] else doneBanner paths)

theorem Site.leaves_compiled (h : Site d.store paths k source) (o : Outcome)
    (hclean : (Lexed.ofSource source).errors = []) :
    Leaves d (compiled d paths k source o)
      [(paths.tokenFile, TokenFile.encode (Lexed.ofSource source).tokens),
        (paths.log, Log.ofDiagnostics o.errors),
        (paths.procedureList, Listing.ofProcedures o.symbols),
        (paths.variableList, Listing.ofVariables o.symbols)]
      (lexicalBanner paths ++ analysisBanner paths ++ Log.ofDiagnostics o.errors ++
        if o.hasErrors then [] else doneBanner paths) where
  holds := by
    have h' := h.tokenized source
    have h'' := h'.analysed o
    have hlists := h.ne_lists
    simp only [List.forall_mem_cons, compiled, store_tell]
    refine ⟨h''.toTokenFile.read_of_node? ?_, h''.toLog.read_of_node? ?_,
      h''.toProcedures.read_of_node? ?_, h''.toVariables.read_of_node? ?_, by simp⟩
    · rw [h'.node?_analysed, if_neg hlists.2.1, if_neg hlists.1, if_neg h.ne_log.2.1.symm,
        h.node?_tokenized, if_neg h.ne_log.2.1.symm, if_pos rfl]
    · rw [h'.node?_analysed, if_neg h.ne_log.2.2.2, if_neg h.ne_log.2.2.1, if_pos rfl]
    · rw [h'.node?_analysed, if_neg hlists.2.2, if_pos rfl]
    · rw [h'.node?_analysed, if_pos rfl]
  others x hx := by
    simp only [List.forall_mem_cons, h.toTokenFile.locate, h.toLog.locate, h.toProcedures.locate,
      h.toVariables.locate, ne_eq, Except.ok.injEq] at hx
    obtain ⟨htokens, hlog, hproc, hvar, -⟩ := hx
    rw [compiled, store_tell, (h.tokenized source).node?_analysed, if_neg hvar, if_neg hproc,
      if_neg hlog, h.node?_tokenized, if_neg hlog, if_neg htokens]
  said := by
    simp [compiled, Compilation.analysed, Compilation.tokenized, Desk.tell, Desk.put, hclean]
    rfl

/-- The lexical stage does not touch the listings. -/
theorem Site.find_tokenized (h : Site d.store paths k source) :
    ∀ p ∈ [paths.procedureList, paths.variableList],
      (Compilation.tokenized d paths k source).store.find p = d.store.find p := by
  have h' := h.tokenized source
  simp only [List.forall_mem_cons]
  refine ⟨?_, ?_, by simp⟩
  · rw [h'.toProcedures.find, h.toProcedures.find, h.node?_tokenized,
      if_neg h.ne_log.2.2.1.symm, if_neg h.ne_lists.1.symm]
  · rw [h'.toVariables.find, h.toVariables.find, h.node?_tokenized,
      if_neg h.ne_log.2.2.2.symm, if_neg h.ne_lists.2.1.symm]

theorem count_errors_tokens {o : Outcome}
    (ho : Outcome.ofTokens (Lexed.ofSource source).tokens source = .ok o) :
    Log.count (Log.ofDiagnostics o.errors) = o.errors.length := by
  refine Outcome.count_append_errors (g := []) (fun t ht hn => ?_) ho rfl
  cases (Lexed.isVisible_of_mem_tokens (Token.mem_significant.mp ht).1).2 _ hn

/-- The second stage, begun where the lexical one has found no fault. -/
theorem run_analyseFile_tokenized (h : Site d.store paths k source)
    (hclean : (Lexed.ofSource source).errors = []) {o : Outcome}
    (ho : Outcome.ofTokens (Lexed.ofSource source).tokens source = .ok o) :
    (tokenized d paths k source).run (analyseFile paths) =
      (if o.hasErrors then .error (.loggedErrors o.errors.length paths.log) else .ok o,
        analysed (tokenized d paths k source) paths k o) := by
  refine run_analyseFile (h.tokenized source) ?_ ?_ (Lexed.decode_encode_tokens source) ho
    (count_errors_tokens ho)
  · rw [h.node?_tokenized, if_neg h.ne_log.2.1.symm, if_pos rfl]
  · -- the log is empty, whatever an earlier run has left in it
    rw [h.node?_tokenized, if_pos rfl, hclean]
    rfl

theorem run_compile_of_faults {path : Text}
    (h : Site d.store (ArtifactPaths.ofSource path) k source)
    (hfaults : (Lexed.ofSource source).errors ≠ []) :
    d.run (compile path) =
      (.error (.lexicalErrors (Lexed.ofSource source).errors.length
        (ArtifactPaths.ofSource path).log),
        tokenized d (ArtifactPaths.ofSource path) k source) := by
  have hlexing := run_tokenizeFile h
  have hhas : (Lexed.ofSource source).hasErrors = true := by simpa [Lexed.hasErrors] using hfaults
  rw [if_pos hhas] at hlexing
  exact run_bind_error hlexing _

theorem run_compile_of_clean {path : Text}
    (h : Site d.store (ArtifactPaths.ofSource path) k source)
    (hclean : (Lexed.ofSource source).errors = []) {o : Outcome}
    (ho : Outcome.ofTokens (Lexed.ofSource source).tokens source = .ok o) :
    d.run (compile path) =
      (if o.hasErrors then
          .error (.loggedErrors o.errors.length (ArtifactPaths.ofSource path).log)
        else .ok o,
        compiled d (ArtifactPaths.ofSource path) k source o) := by
  have hlexing := run_tokenizeFile h
  have hhas : (Lexed.ofSource source).hasErrors = false := by simp [Lexed.hasErrors, hclean]
  rw [if_neg (by simp [hhas])] at hlexing
  have hanalysis := run_analyseFile_tokenized h hclean ho
  rw [compile, run_bind_ok hlexing, proceed]
  cases hoerr : o.hasErrors with
  | true =>
      rw [hoerr, if_pos rfl] at hanalysis
      rw [run_bind_error hanalysis, compiled, hoerr, if_pos rfl, if_pos rfl, tell_nil]
  | false =>
      rw [hoerr, if_neg (by simp)] at hanalysis
      rw [run_bind_ok hanalysis, compiled, hoerr, if_neg (by simp), if_neg (by simp)]
      rfl

/-- Compiling a source file comes to what the stages come to without the files: whatever the
artifacts held before, they hold afterwards what the stages have found, which is also what was told.
With lexical faults the second stage is left out. -/
theorem compile_refines {path : Text} (hsource : d.store.readText path = .ok source)
    (hext : ∀ e ∈ artifactExtensions, Path.extension? path ≠ some e)
    (hfiles : ∀ p ∈ (ArtifactPaths.ofSource path).artifacts, d.store.IsFileOrAbsent p) :
    let paths := ArtifactPaths.ofSource path
    let lexed := Lexed.ofSource source
    (lexed.errors ≠ [] → ∃ d',
      d.run (compile path) = (.error (.lexicalErrors lexed.errors.length paths.log), d') ∧
      Leaves d d'
        [(paths.tokenFile, TokenFile.encode lexed.tokens),
          (paths.log, Log.ofDiagnostics lexed.errors)]
        (lexicalBanner paths ++ Log.ofDiagnostics lexed.errors) ∧
      ∀ p ∈ [paths.procedureList, paths.variableList], d'.store.find p = d.store.find p) ∧
    (lexed.errors = [] → ∃ o d', Outcome.ofTokens lexed.tokens source = .ok o ∧
      d.run (compile path) =
        (if o.hasErrors then .error (.loggedErrors o.errors.length paths.log) else .ok o, d') ∧
      Leaves d d'
        [(paths.tokenFile, TokenFile.encode lexed.tokens),
          (paths.log, Log.ofDiagnostics o.errors),
          (paths.procedureList, Listing.ofProcedures o.symbols),
          (paths.variableList, Listing.ofVariables o.symbols)]
        (lexicalBanner paths ++ analysisBanner paths ++ Log.ofDiagnostics o.errors ++
          if o.hasErrors then [] else doneBanner paths)) := by
  intro paths lexed
  obtain ⟨k, h⟩ := exists_site hsource hext hfiles
  constructor
  · intro hfaults
    exact ⟨_, run_compile_of_faults h hfaults, h.leaves_tokenized, h.find_tokenized⟩
  · intro hclean
    obtain ⟨o, ho⟩ := Outcome.exists_ofTokens_ofSource hclean
    exact ⟨o, _, ho, run_compile_of_clean h hclean ho, h.leaves_compiled o hclean⟩

/-- A desk in one directory, with a source file and an old log in another. -/
def deskElsewhere : Desk where
  store := {
    nodes := .ofList [(["src".toList], Node.directory),
      (["src".toList, "a.src".toList], Node.file (Text.bytes "begin read(x) end".toList)),
      (["src".toList, "a.err".toList], Node.file (Text.bytes "***LINE:7  old".toList))]
    here := ["work".toList] }
  said := []

theorem compile_refines_elsewhere :
    deskElsewhere.store.find "/src/a.err".toList =
      .ok (.file ["src".toList, "a.err".toList] (Text.bytes "***LINE:7  old".toList)) ∧
    ∃ o d', Outcome.ofTokens (Lexed.ofSource "begin read(x) end".toList).tokens
        "begin read(x) end".toList = .ok o ∧
      deskElsewhere.run (compile "/src/a.src".toList) =
        (if o.hasErrors then .error (.loggedErrors o.errors.length "/src/a.err".toList)
          else .ok o, d') ∧
      d'.store.read "/src/a.err".toList = .ok (Text.bytes (Log.ofDiagnostics o.errors)) := by
  refine ⟨rfl, ?_⟩
  have hsource : deskElsewhere.store.readText "/src/a.src".toList =
    .ok "begin read(x) end".toList := Store.readText_of_find rfl
  have hfiles : ∀ p ∈ (ArtifactPaths.ofSource "/src/a.src".toList).artifacts,
      deskElsewhere.store.IsFileOrAbsent p := by
    simp only [ArtifactPaths.artifacts, List.forall_mem_cons]
    exact ⟨.inl rfl, .inr ⟨_, _, rfl⟩, .inl rfl, .inl rfl, by simp⟩
  obtain ⟨-, h⟩ := compile_refines hsource (by decide) hfiles
  obtain ⟨o, d', ho, hrun, hleaves⟩ := h (by decide)
  exact ⟨o, d', ho, hrun, hleaves.holds (_, Log.ofDiagnostics o.errors) (.tail _ (.head _))⟩

end Compilation

end BlockLang
