import BlockLang.Compilation
import BlockLang.Proofs.Storage.Locations
import BlockLang.Proofs.Storage.Workspace

/-!
# What stops the second stage

The second stage first looks at the log, at the token file and at the source file, and analyses the
tokens. Each of these can stop it, and the first one that does decides how it fails. Until then
nothing is written, whatever the files are kept in.
-/

namespace BlockLang.Compilation

open Workspace (Shows run run_bind_ok run_bind_error)

/-! ## Obstacles -/

section Obstacle

variable {seen : Text → Except StorageFault Text} {paths : ArtifactPaths}

/-- What can stop the second stage before it writes anything, by what is seen in the files. The
number tells the order in which it is looked for. -/
inductive Obstacle (seen : Text → Except StorageFault Text) (paths : ArtifactPaths) :
    Nat → Fatal → Prop where
  /-- The log cannot be read, although it is there. -/
  | unreadableLog {e : StorageFault} (h : seen paths.log = .error e) (he : e ≠ .notFound) :
      Obstacle seen paths 0 (.cannotRead paths.log e)
  /-- Not all lines of the log are blank. -/
  | loggedFaults {t : Text} (h : seen paths.log = .ok t) (ht : 0 < Log.count t) :
      Obstacle seen paths 0 (.loggedErrors (Log.count t) paths.log)
  | unreadableTokens {e : StorageFault} (h : seen paths.tokenFile = .error e) :
      Obstacle seen paths 1 (.cannotRead paths.tokenFile e)
  | invalidTokens {t : Text} {f : TokenFile.Fault} (h : seen paths.tokenFile = .ok t)
      (hf : TokenFile.decode t = .error f) : Obstacle seen paths 1 (.tokenFile f)
  | unreadableSource {e : StorageFault} (h : seen paths.source = .error e) :
      Obstacle seen paths 2 (.cannotOpenSource paths.source e)
  /-- The tokens are not those of the source text. -/
  | otherSource {t source : Text} {ts : List Token} {m : Mismatch}
      (ht : seen paths.tokenFile = .ok t) (hts : TokenFile.decode t = .ok ts)
      (hs : seen paths.source = .ok source) (hm : Outcome.ofTokens ts source = .error m) :
      Obstacle seen paths 3 (.sourceMismatch m)

/-- What the log says about whether the second stage may begin. -/
def checkLog (seen : Text → Except StorageFault Text) (path : Text) : Except Fatal Unit :=
  match seen path with
  | .ok t => if 0 < Log.count t then .error (.loggedErrors (Log.count t) path) else .ok ()
  | .error .notFound => .ok ()
  | .error e => .error (.cannotRead path e)

def tokensIn (seen : Text → Except StorageFault Text) (path : Text) :
    Except Fatal (List Token) :=
  match seen path with
  | .error e => .error (.cannotRead path e)
  | .ok t => (TokenFile.decode t).mapError .tokenFile

def sourceIn (seen : Text → Except StorageFault Text) (path : Text) : Except Fatal Text :=
  (seen path).mapError (.cannotOpenSource path)

/-- What the second stage comes to before it writes anything. -/
def examine (seen : Text → Except StorageFault Text) (paths : ArtifactPaths) :
    Except Fatal Outcome := do
  checkLog seen paths.log
  let ts ← tokensIn seen paths.tokenFile
  let source ← sourceIn seen paths.source
  (Outcome.ofTokens ts source).mapError .sourceMismatch

theorem checkLog_of_notFound {path : Text} (h : seen path = .error .notFound) :
    checkLog seen path = .ok () := by
  rw [checkLog, h]

theorem checkLog_of_error {path : Text} {e : StorageFault} (h : seen path = .error e)
    (he : e ≠ .notFound) : checkLog seen path = .error (.cannotRead path e) := by
  rw [checkLog, h]
  cases e with
  | notFound => exact absurd rfl he
  | _ => rfl

theorem checkLog_of_ok {path t : Text} (h : seen path = .ok t) : checkLog seen path =
    if 0 < Log.count t then .error (.loggedErrors (Log.count t) path) else .ok () := by
  rw [checkLog, h]

theorem tokensIn_of_ok {path t : Text} (h : seen path = .ok t) :
    tokensIn seen path = (TokenFile.decode t).mapError .tokenFile := by
  rw [tokensIn, h]

theorem checkLog_eq_ok (h : ∀ f, ¬ Obstacle seen paths 0 f) :
    checkLog seen paths.log = .ok () := by
  cases hlog : seen paths.log with
  | error e =>
      by_cases he : e = .notFound
      · exact checkLog_of_notFound (he ▸ hlog)
      · exact absurd (.unreadableLog hlog he) (h _)
  | ok t =>
      have hcount : ¬ 0 < Log.count t := fun ht => h _ (.loggedFaults hlog ht)
      rw [checkLog_of_ok hlog, if_neg hcount]

theorem exists_tokens (h : ∀ f, ¬ Obstacle seen paths 1 f) :
    ∃ t ts, seen paths.tokenFile = .ok t ∧ TokenFile.decode t = .ok ts := by
  cases ht : seen paths.tokenFile with
  | error e => exact absurd (.unreadableTokens ht) (h _)
  | ok t =>
      cases hts : TokenFile.decode t with
      | error f => exact absurd (.invalidTokens ht hts) (h _)
      | ok ts => exact ⟨t, ts, rfl, hts⟩

theorem examine_eq_ok {t source : Text} {ts : List Token} {o : Outcome}
    (hlog : checkLog seen paths.log = .ok ()) (ht : seen paths.tokenFile = .ok t)
    (hts : TokenFile.decode t = .ok ts) (hs : seen paths.source = .ok source)
    (ho : Outcome.ofTokens ts source = .ok o) : examine seen paths = .ok o := by
  rw [examine, hlog, tokensIn_of_ok ht, hts, sourceIn, hs]
  exact congrArg (Except.mapError Fatal.sourceMismatch) ho

/-- The obstacle that is met first decides what the examination comes to. -/
theorem examine_eq_error {i : Nat} {f : Fatal} (h : Obstacle seen paths i f)
    (hfirst : ∀ j g, Obstacle seen paths j g → i ≤ j) : examine seen paths = .error f := by
  have hnone : ∀ j < i, ∀ g, ¬ Obstacle seen paths j g := fun j hj g hg =>
    Nat.not_le_of_lt hj (hfirst j g hg)
  cases h with
  | unreadableLog hlog he => rw [examine, checkLog_of_error hlog he]; rfl
  | loggedFaults hlog ht => rw [examine, checkLog_of_ok hlog, if_pos ht]; rfl
  | unreadableTokens ht =>
      rw [examine, checkLog_eq_ok (hnone 0 (by decide)), tokensIn, ht]
      rfl
  | invalidTokens ht hf =>
      rw [examine, checkLog_eq_ok (hnone 0 (by decide)), tokensIn_of_ok ht, hf]
      rfl
  | unreadableSource hs =>
      obtain ⟨t, ts, ht, hts⟩ := exists_tokens (hnone 1 (by decide))
      rw [examine, checkLog_eq_ok (hnone 0 (by decide)), tokensIn_of_ok ht, hts, sourceIn, hs]
      rfl
  | otherSource ht hts hs hm =>
      rw [examine, checkLog_eq_ok (hnone 0 (by decide)), tokensIn_of_ok ht, hts, sourceIn, hs]
      exact congrArg (Except.mapError Fatal.sourceMismatch) hm

end Obstacle

/-! ## Runs -/

section Runs

variable {σ φ : Type} [Workspace (StateM σ)] {files : σ → φ}
  {look : φ → Text → Except StorageFault Text} {paths : ArtifactPaths}

theorem run_countLogged_of_ok (h : Shows files look) {s : σ} {path t : Text}
    (ht : look (files s) path = .ok t) : run s (countLogged path) = (.ok (Log.count t), s) := by
  have hread := h.run_read (ε := Fatal) s path
  rw [ht] at hread
  rw [countLogged, run_bind_ok hread]
  rfl

theorem run_countLogged_of_notFound (h : Shows files look) {s : σ} {path : Text}
    (he : look (files s) path = .error .notFound) : run s (countLogged path) = (.ok 0, s) := by
  have hread := h.run_read (ε := Fatal) s path
  rw [he] at hread
  rw [countLogged, run_bind_ok hread]
  rfl

theorem run_ensureClean_eq (h : Shows files look) (s : σ) (paths : ArtifactPaths) :
    run s (ensureClean paths) = (checkLog (look (files s)) paths.log, s) := by
  cases hlog : look (files s) paths.log with
  | ok t =>
      rw [checkLog_of_ok hlog, ensureClean, run_bind_ok (run_countLogged_of_ok h hlog)]
      split <;> rfl
  | error e =>
      by_cases he : e = .notFound
      · subst he
        rw [checkLog_of_notFound hlog, ensureClean,
          run_bind_ok (run_countLogged_of_notFound h hlog)]
        rfl
      · have hread := h.run_read (ε := Fatal) s paths.log
        rw [hlog] at hread
        have hcount : run s (countLogged paths.log) = (.error (.cannotRead paths.log e), s) := by
          rw [countLogged, run_bind_ok hread]
          cases e with
          | notFound => exact absurd rfl he
          | _ => rfl
        rw [checkLog_of_error hlog he, ensureClean, run_bind_error hcount]

theorem run_readTokens_eq (h : Shows files look) (s : σ) (path : Text) :
    run s (readTokens path) = (tokensIn (look (files s)) path, s) := by
  rw [readTokens, run_bind_ok (h.run_read s path), tokensIn]
  cases look (files s) path with
  | error e => rfl
  | ok t =>
      dsimp only
      cases TokenFile.decode t <;> rfl

theorem run_readSource_eq (h : Shows files look) (s : σ) (path : Text) :
    run s (readSource path) = (sourceIn (look (files s)) path, s) := by
  rw [readSource, run_bind_ok (h.run_read s path), sourceIn]
  cases look (files s) path <;> rfl

/-- A state after the user was told that the second stage begins. -/
def begun (s : σ) (paths : ArtifactPaths) : σ :=
  (run s (sayLine ("*** syntax analysis: ".toList ++ paths.tokenFile) :
    ExceptT Fatal (StateM σ) Unit)).2

/-- The second stage examines the files and then records what it has found, or fails at once. -/
theorem run_analyseFile_eq (h : Shows files look) (s : σ) (paths : ArtifactPaths) :
    run s (analyseFile paths) =
      match checkLog (look (files s)) paths.log, examine (look (files s)) paths with
      | .error _, .error f => (.error f, s)
      | _, .error f => (.error f, begun s paths)
      | _, .ok o => run (begun s paths) (recordOutcome paths o) := by
  have hclean := run_ensureClean_eq h s paths
  have hsay : run s (sayLine ("*** syntax analysis: ".toList ++ paths.tokenFile)) =
    ((.ok () : Except Fatal _), begun s paths) := rfl
  have hbegun : files (begun s paths) = files s := h.say _ _
  have htokens := run_readTokens_eq h (begun s paths) paths.tokenFile
  have hsource := run_readSource_eq h (begun s paths) paths.source
  rw [hbegun] at htokens hsource
  rw [analyseFile, examine]
  cases hlog : checkLog (look (files s)) paths.log with
  | error f =>
      rw [hlog] at hclean
      rw [run_bind_error hclean]
      rfl
  | ok u =>
      rw [hlog] at hclean
      rw [run_bind_ok hclean, run_bind_ok hsay]
      cases hts : tokensIn (look (files s)) paths.tokenFile with
      | error f =>
          rw [hts] at htokens
          rw [run_bind_error htokens]
          rfl
      | ok ts =>
          rw [hts] at htokens
          rw [run_bind_ok htokens]
          cases hs : sourceIn (look (files s)) paths.source with
          | error f =>
              rw [hs] at hsource
              rw [run_bind_error hsource]
              rfl
          | ok source =>
              rw [hs] at hsource
              rw [run_bind_ok hsource]
              cases ho : Outcome.ofTokens ts source with
              | error m =>
                  have hm := congrArg (Except.mapError Fatal.sourceMismatch) ho
                  simp only [bind, Except.bind, hm]
                  rfl
              | ok o =>
                  have hm := congrArg (Except.mapError Fatal.sourceMismatch) ho
                  simp only [bind, Except.bind, hm]
                  rfl

/-- While something is in its way, the second stage fails for what it meets first, and every file is
as it was. With nothing in its way it goes on to record what it has found, also when there is no
log. -/
theorem analyseFile_all_or_nothing (h : Shows files look) (s : σ) (paths : ArtifactPaths) :
    (∀ i f, Obstacle (look (files s)) paths i f →
      (∀ j g, Obstacle (look (files s)) paths j g → i ≤ j) →
        ∃ s', run s (analyseFile paths) = (.error f, s') ∧ files s' = files s) ∧
    ((∀ i f, ¬ Obstacle (look (files s)) paths i f) → ∃ t ts source o s',
      look (files s) paths.tokenFile = .ok t ∧ TokenFile.decode t = .ok ts ∧
        look (files s) paths.source = .ok source ∧ Outcome.ofTokens ts source = .ok o ∧
          files s' = files s ∧ run s (analyseFile paths) = run s' (recordOutcome paths o)) := by
  have hrun := run_analyseFile_eq h s paths
  have hbegun : files (begun s paths) = files s := h.say _ _
  constructor
  · intro i f hf hfirst
    rw [examine_eq_error hf hfirst] at hrun
    cases hlog : checkLog (look (files s)) paths.log with
    | error g => exact ⟨s, by rw [hrun, hlog], rfl⟩
    | ok u => exact ⟨begun s paths, by rw [hrun, hlog], hbegun⟩
  · intro hnone
    have hlog := checkLog_eq_ok (hnone 0)
    obtain ⟨t, ts, ht, hts⟩ := exists_tokens (hnone 1)
    cases hs : look (files s) paths.source with
    | error e => exact absurd (.unreadableSource hs) (hnone 2 _)
    | ok source =>
        cases ho : Outcome.ofTokens ts source with
        | error m => exact absurd (.otherSource ht hts hs ho) (hnone 3 _)
        | ok o =>
            rw [examine_eq_ok hlog ht hts hs ho, hlog] at hrun
            exact ⟨t, ts, source, o, begun s paths, ht, hts, rfl, ho, hbegun, hrun⟩

/-- A desk with a token file that breaks off, without a log and without a source file. -/
def deskWithBrokenTokens : Desk where
  store := Store.empty.put ["a.dyd".toList] (Text.bytes "begin 1\nend".toList)
  said := []

theorem analyseFile_all_or_nothing_brokenTokens :
    let paths := ArtifactPaths.ofSource "a.src".toList
    deskWithBrokenTokens.store.readText paths.log = .error .notFound ∧
    deskWithBrokenTokens.store.readText paths.source = .error .notFound ∧
    ∃ d', run deskWithBrokenTokens (analyseFile paths) =
        (.error (.tokenFile (.malformedEntry 2 "end".toList)), d') ∧
      d'.store = deskWithBrokenTokens.store := by
  intro paths
  have hlog : deskWithBrokenTokens.store.readText paths.log = .error .notFound := rfl
  have htokens : deskWithBrokenTokens.store.readText paths.tokenFile =
      .ok "begin 1\nend".toList := Store.readText_of_find rfl
  refine ⟨hlog, rfl, ?_⟩
  refine (analyseFile_all_or_nothing Workspace.shows_desk deskWithBrokenTokens paths).1 1 _
    (.invalidTokens htokens rfl) ?_
  intro j g hg
  cases hg with
  | unreadableLog h he => exact absurd (Except.error.inj (h.symm.trans hlog)) he
  | loggedFaults h ht => cases h.symm.trans hlog
  | _ => decide

end Runs

end BlockLang.Compilation
