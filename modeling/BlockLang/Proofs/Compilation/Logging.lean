import BlockLang.Proofs.Compilation.Desk
import BlockLang.Proofs.Lexeme.Quotation
import BlockLang.Proofs.Storage.Frame

/-!
# Keeping a log

A log is started and added to by one call after another, each of which is given the lexical faults
of some source text. What the log holds in the end are the faults that were given since it was last
started, one on each line, and that many are counted in it.
-/

namespace BlockLang.Compilation

open Desk

/-! ## Calls -/

/-- A call that writes the lexical faults of a source text to a log. -/
inductive LogCall where
  /-- Starts the log, whatever it held. -/
  | create (source : Text)
  | append (source : Text)
  deriving DecidableEq, Repr

namespace LogCall

def source : LogCall → Text
  | create s | append s => s

def isCreate : LogCall → Bool
  | create _ => true
  | append _ => false

def errors (c : LogCall) : List (Diagnostic LexicalFault) := (Lexed.ofSource c.source).errors

def perform {m : Type → Type} [Monad m] [Workspace m] (path : Text) (c : LogCall) :
    ExceptT Fatal m Unit :=
  match c with
  | create _ => createLog path c.errors
  | append _ => appendLog path c.errors

end LogCall

/-- Makes some calls on the same log, until one fails. -/
def keepLog {m : Type → Type} [Monad m] [Workspace m] (path : Text) (cs : List LogCall) :
    ExceptT Fatal m Unit :=
  cs.forM fun c => c.perform path

/-! ## What was given -/

/-- The source texts that were given to a log since it was last started. -/
def sinceCreate : List LogCall → List Text
  | [] => []
  | c :: cs => if cs.any LogCall.isCreate then sinceCreate cs else c.source :: sinceCreate cs

/-- The faults that were given to a log since it was last started. -/
def givenErrors (cs : List LogCall) : List (Diagnostic LexicalFault) :=
  (sinceCreate cs).flatMap fun s => (Lexed.ofSource s).errors

/-- What a log holds after some calls if it held some faults before. -/
def logged (held : List (Diagnostic LexicalFault)) (cs : List LogCall) :
    List (Diagnostic LexicalFault) :=
  (if cs.any LogCall.isCreate then [] else held) ++ givenErrors cs

theorem givenErrors_cons (c : LogCall) (cs : List LogCall) : givenErrors (c :: cs) =
    if cs.any LogCall.isCreate then givenErrors cs else c.errors ++ givenErrors cs := by
  rw [givenErrors, sinceCreate]
  split <;> rfl

theorem logged_nil_held (cs : List LogCall) : logged [] cs = givenErrors cs := by
  simp [logged]

/-- A log can be followed from one call to the next. -/
theorem logged_cons (held : List (Diagnostic LexicalFault)) (c : LogCall) (cs : List LogCall) :
    logged held (c :: cs) = logged (logged held [c]) cs := by
  by_cases hcs : cs.any LogCall.isCreate = true
  · simp [logged, givenErrors_cons, hcs]
  · simp [logged, givenErrors, sinceCreate, hcs]

theorem mem_givenErrors {cs : List LogCall} {e : Diagnostic LexicalFault}
    (h : e ∈ givenErrors cs) : ∃ s, e ∈ (Lexed.ofSource s).errors := by
  obtain ⟨s, -, he⟩ := List.mem_flatMap.mp h
  exact ⟨s, he⟩

theorem lines_givenErrors (cs : List LogCall) :
    Text.lines (Log.ofDiagnostics (givenErrors cs)) = (givenErrors cs).map Diagnostic.render := by
  refine Text.lines_unlines (List.forall_mem_map.mpr fun e he => ?_)
  obtain ⟨s, hs⟩ := mem_givenErrors he
  have hspaces := Lexed.blanksAreSpaces_of_mem_errors hs
  exact ⟨hspaces.lineFeed, hspaces.carriageReturn⟩

theorem count_givenErrors (cs : List LogCall) :
    Log.count (Log.ofDiagnostics (givenErrors cs)) = (givenErrors cs).length := by
  refine Log.count_ofDiagnostics fun e he => ?_
  obtain ⟨s, hs⟩ := mem_givenErrors he
  exact (e.fault.blanksAreSpaces_message (Lexed.isVisible_of_mem_errors hs)).lineFeed

theorem length_givenErrors_eq_zero_iff (cs : List LogCall) :
    (givenErrors cs).length = 0 ↔ ∀ s ∈ sinceCreate cs, (Lexed.ofSource s).errors = [] := by
  rw [List.length_eq_zero_iff, givenErrors, List.flatMap_eq_nil_iff]

/-! ## Calls at a desk -/

variable {d d' : Desk} {path t u told : Text} {k : Location} {c : LogCall} {cs : List LogCall}
  {held : List (Diagnostic LexicalFault)}

theorem leaves_put (hk : d.store.Leads path k) (t : Text) :
    Leaves d (d.put k t) [(path, t)] [] where
  holds := by
    rw [List.forall_mem_singleton]
    refine (hk.put hk _).read_of_node? ?_
    rw [Store.node?_put _ hk.not_around, if_pos rfl]
  others x hx := by
    rw [List.forall_mem_singleton, hk.locate, ne_eq, Except.ok.injEq] at hx
    rw [node?_put _ hk.not_around, if_neg hx]
  said := (List.append_nil _).symm

/-- What was written before in the same place does not show any more. -/
theorem Leaves.of_put (hk : d.store.Leads path k)
    (h : Leaves (d.put k t) d' [(path, u)] told) : Leaves d d' [(path, u)] told where
  holds := h.holds
  others x hx := by
    rw [List.forall_mem_singleton, hk.locate, ne_eq, Except.ok.injEq] at hx
    have hloc : (d.put k t).store.locate path = .ok k := (hk.put hk _).locate
    rw [h.others x (by simpa [hloc] using hx), node?_put _ hk.not_around, if_neg hx]
  said := h.said

theorem run_perform (hk : d.store.Leads path k)
    (hheld : c.isCreate = false → d.store.contentAt k = (Log.ofDiagnostics held).bytes) :
    d.run (c.perform path) = (.ok (), d.put k (Log.ofDiagnostics (logged held [c]))) := by
  cases c with
  | create s =>
      have hlog : logged held [.create s] = (Lexed.ofSource s).errors := by
        simp [logged, givenErrors, sinceCreate, LogCall.isCreate, LogCall.source]
      rw [hlog]
      exact run_createLog hk (Lexed.ofSource s).errors
  | append s =>
      have hlog : Log.ofDiagnostics (logged held [.append s]) =
          Log.ofDiagnostics held ++ Log.ofDiagnostics (Lexed.ofSource s).errors := by
        simp [logged, givenErrors, sinceCreate, LogCall.isCreate, LogCall.source, Log.ofDiagnostics,
          Text.unlines]
      rw [hlog]
      exact run_appendLog hk (hheld rfl) (Lexed.ofSource s).errors

/-- Some calls leave the log with what it holds after the last of them, and nothing else. -/
theorem exists_run_keepLog (hk : d.store.Leads path k)
    (hheld : c.isCreate = false → d.store.contentAt k = (Log.ofDiagnostics held).bytes) :
    ∃ d', d.run (keepLog path (c :: cs)) = (.ok (), d') ∧
      Leaves d d' [(path, Log.ofDiagnostics (logged held (c :: cs)))] [] := by
  induction cs generalizing d c held with
  | nil =>
      refine ⟨_, ?_, leaves_put hk _⟩
      rw [keepLog, List.forM_eq_forM, List.forM_cons, run_bind_ok (run_perform hk hheld)]
      rfl
  | cons c' cs ih =>
      have hcontent : (d.put k (Log.ofDiagnostics (logged held [c]))).store.contentAt k =
          (Log.ofDiagnostics (logged held [c])).bytes := by
        rw [Store.contentAt, node?_put _ hk.not_around, if_pos rfl]
      obtain ⟨d', hrun, hleaves⟩ := ih (hk.put hk _) (c := c') fun _ => hcontent
      refine ⟨d', ?_, ?_⟩
      · rw [keepLog, List.forM_eq_forM, List.forM_cons, run_bind_ok (run_perform hk hheld)]
        exact hrun
      · rw [logged_cons]
        exact hleaves.of_put hk

/-- Where no file can be written, a call fails and leaves everything as it was. -/
theorem run_perform_of_not_isWritable (h : ¬ d.store.IsWritable path) (c : LogCall) :
    ∃ e, d.run (c.perform path) = (.error (.cannotWrite path e), d) := by
  cases hloc : d.store.locate path with
  | ok k => exact absurd ⟨k, hloc⟩ h
  | error e =>
      refine ⟨e, ?_⟩
      cases c with
      | create s => exact run_bind_ok (run_write_of_locate_error hloc _) _
      | append s => exact run_bind_ok (run_append_of_locate_error hloc _) _

/-! ## Counting -/

/-- There is no log yet, or there is a file that the first call replaces. -/
def BeginsAnew (s : Store) (path : Text) (cs : List LogCall) : Prop :=
  s.find path = .error .notFound ∨
    ((∃ k b, s.find path = .ok (.file k b)) ∧ ∃ c ∈ cs.head?, c.isCreate = true)

/-- The faults that a log holds before calls that begin anew, as far as they are kept. -/
theorem BeginsAnew.contentAt_eq (h : BeginsAnew d.store path (c :: cs))
    (hk : d.store.Leads path k) (hc : c.isCreate = false) :
    d.store.contentAt k = (Log.ofDiagnostics ([] : List (Diagnostic LexicalFault))).bytes := by
  rcases h with habsent | ⟨-, c', hhead, hcreate⟩
  · exact hk.contentAt_of_notFound (Store.readText_of_find_error habsent)
  · cases hhead
    rw [hc] at hcreate
    cases hcreate

/-- A log that is begun anew holds in the end one line for each fault that was given since it was
last started, in their order. It counts exactly those faults, and so none exactly if all the source
texts since then are free of them. Nothing else has changed. Where no file can be written, no call
succeeds and everything stays as it was. -/
theorem keepLog_counts_given_errors (h : BeginsAnew d.store path cs) :
    (d.store.IsWritable path → ∃ d', d.run (keepLog path cs) = (.ok (), d') ∧
      (cs ≠ [] → Leaves d d' [(path, Log.ofDiagnostics (givenErrors cs))] []) ∧
      d'.run (countLogged path) = (.ok (givenErrors cs).length, d')) ∧
    Text.lines (Log.ofDiagnostics (givenErrors cs)) = (givenErrors cs).map Diagnostic.render ∧
    ((givenErrors cs).length = 0 ↔ ∀ s ∈ sinceCreate cs, (Lexed.ofSource s).errors = []) ∧
    (¬ d.store.IsWritable path →
      ∀ c : LogCall, ∃ e, d.run (c.perform path) = (.error (.cannotWrite path e), d)) := by
  refine ⟨?_, lines_givenErrors cs, length_givenErrors_eq_zero_iff cs,
    run_perform_of_not_isWritable⟩
  rintro ⟨k, hloc⟩
  cases cs with
  | nil =>
      have habsent : d.store.find path = .error .notFound := by simpa [BeginsAnew] using h
      exact ⟨d, rfl, fun hne => absurd rfl hne, run_countLogged_of_notFound Workspace.shows_desk
        (Store.readText_of_find_error habsent)⟩
  | cons c cs =>
      have hk := Store.leads_of_locate hloc
      obtain ⟨d', hrun, hleaves⟩ := exists_run_keepLog hk (h.contentAt_eq hk)
      rw [logged_nil_held] at hleaves
      have hread := Store.readText_of_read (hleaves.holds _ (List.mem_singleton_self _))
      have hcount := run_countLogged_of_ok Workspace.shows_desk hread
      rw [count_givenErrors] at hcount
      exact ⟨d', hrun, fun _ => hleaves, hcount⟩

/-- A desk whose log lies beside the working directory and holds no text at all. -/
def deskWithBytesInLog : Desk where
  store := { Store.empty with here := ["work".toList] }.put ["a.err".toList] ⟨#[0xff, 0x0a]⟩
  said := []

theorem keepLog_counts_given_errors_restarted :
    let cs : List LogCall := [.create "1a".toList, .append "b$c".toList, .create "a:b\n9z".toList,
      .append "begin".toList, .append "\u2028<-".toList]
    BeginsAnew deskWithBytesInLog.store "/a.err".toList cs ∧
    ∃ d', deskWithBytesInLog.run (keepLog "/a.err".toList cs) = (.ok (), d') ∧
      d'.store.read "/a.err".toList = .ok (Text.bytes (Log.ofDiagnostics
        [⟨LexicalFault.loneColon, 1⟩, ⟨.illegalSymbol "9z".toList, 2⟩,
          ⟨.illegalOperator "<-".toList, 1⟩])) ∧
      d'.run (countLogged "/a.err".toList) = (.ok 3, d') := by
  intro cs
  have hbegins : BeginsAnew deskWithBytesInLog.store "/a.err".toList cs :=
    .inr ⟨⟨_, _, rfl⟩, _, rfl, rfl⟩
  have hgiven : givenErrors cs = [⟨LexicalFault.loneColon, 1⟩, ⟨.illegalSymbol "9z".toList, 2⟩,
    ⟨.illegalOperator "<-".toList, 1⟩] := by decide +kernel
  obtain ⟨d', hrun, hleaves, hcount⟩ := (keepLog_counts_given_errors hbegins).1 ⟨_, rfl⟩
  have hread := (hleaves (by simp [cs])).holds _ (List.mem_singleton_self _)
  rw [hgiven] at hread hcount
  exact ⟨hbegins, d', hrun, hread, hcount⟩

end BlockLang.Compilation
