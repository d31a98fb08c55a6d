import BlockLang.Proofs.Analysis.LineTracking
import BlockLang.Proofs.Grammar.Completeness
import BlockLang.Proofs.Grammar.Soundness

/-!
# Acceptance

The analysis of a program notes a grammatical fault exactly when the grammar does not derive the
kinds of its tokens.
-/

namespace BlockLang

open Grammar (Event Reading IsProgram kinds programGoals eventsOf)

/-! ## Grammatical faults of a session -/

def ProgramFault.grammar? : ProgramFault → Option GrammarFault
  | grammar f => some f
  | scope _ => none

def grammarFaults (ds : List (Diagnostic ProgramFault)) : List GrammarFault :=
  ds.filterMap fun d => d.fault.grammar?

namespace Session

theorem grammarFaults_noteIf (s : Session) (b : Bool) (f : ScopeFault) :
    grammarFaults (s.noteIf b f).errors.toList = grammarFaults s.errors.toList := by
  unfold noteIf
  split
  · simp [grammarFaults, note, ProgramFault.grammar?]
  · rfl

/-- A session notes the grammatical fault that an event reports, and no other. -/
theorem grammarFaults_perform {s t : Session} {e : Event} (h : s.perform e = .ok t) :
    grammarFaults t.errors.toList = grammarFaults s.errors.toList ++ e.fault?.toList := by
  cases e with
  | reach u =>
      obtain ⟨c, -, rfl⟩ := perform_reach h
      simp [Event.fault?]
  | report f =>
      cases h
      simp [grammarFaults, note, ProgramFault.grammar?, Event.fault?]
  | declare x =>
      cases h
      rw [declare_eq]
      simp [grammarFaults_noteIf, Event.fault?]
  | use x | call x | enter x r =>
      cases h
      simp [use, call, enter, grammarFaults_noteIf, Event.fault?]
  | parameter x =>
      cases h
      simp [parameter, Event.fault?]
  | leave =>
      cases h
      unfold leave
      split <;> simp [Event.fault?]

theorem grammarFaults_performAll {s t : Session} {es : List Event} (h : s.performAll es = .ok t) :
    grammarFaults t.errors.toList =
      grammarFaults s.errors.toList ++ es.filterMap Event.fault? := by
  induction es generalizing s with
  | nil =>
      cases h
      simp
  | cons e es ih =>
      obtain ⟨u, hu, h⟩ := performAll_cons_eq_ok.mp h
      rw [ih h, grammarFaults_perform hu, List.append_assoc]
      cases hf : e.fault? <;> simp [hf]

end Session

/-! ## Grammatical faults of a reading -/

namespace Syntax

theorem Statements.fault?_events (ss : Statements) : ss.events.filterMap Event.fault? = [] := by
  refine List.filterMap_eq_nil_iff.mpr fun e he => ?_
  have hmention := List.all_eq_true.mp ss.isMention_events e he
  cases e with
  | use x | call f => rfl
  | _ => cases hmention

mutual

theorem Declaration.fault?_events (d : Declaration) : d.events.filterMap Event.fault? = [] := by
  match d with
  | .variable x => rfl
  | .function r f p ds ss =>
      rw [Declaration.events, List.filterMap_cons_none rfl, List.filterMap_cons_none rfl,
        List.filterMap_append, List.filterMap_append, Declarations.fault?_events ds,
        ss.fault?_events]
      rfl

theorem Declarations.fault?_events (ds : Declarations) : ds.events.filterMap Event.fault? = [] := by
  match ds with
  | .none => rfl
  | .last d => exact Declaration.fault?_events d
  | .skip ds => exact Declarations.fault?_events ds
  | .more d ds =>
      simp [Declarations.events, List.filterMap_append, Declaration.fault?_events d,
        Declarations.fault?_events ds]

end

theorem Program.fault?_events (p : Program) : p.events.filterMap Event.fault? = [] := by
  simp [Program.events, List.filterMap_append, p.declarations.fault?_events,
    p.statements.fault?_events]

end Syntax

namespace Grammar

theorem fault?_of_isReach {e : Event} (h : e.isReach = true) : e.fault? = none := by
  cases e <;> first | rfl | cases h

theorem filterMap_fault?_told (es : List Event) :
    (es.filter fun e => !e.isReach).filterMap Event.fault? = es.filterMap Event.fault? := by
  rw [List.filterMap_filter]
  congr 1
  funext e
  cases h : e.isReach with
  | true => simp [fault?_of_isReach h]
  | false => simp

theorem fault?_eventsOf (ts : List Token) : (eventsOf ts).filterMap Event.fault? =
    (Reading.told ⟨programGoals, ts⟩).filterMap Event.fault? := by
  rw [← filterMap_fault?_told, told_eventsOf]

theorem fault?_eventsOf_of_spells {p : Syntax.Program} {ts : List Token} (h : p.Spells ts) :
    (eventsOf ts).filterMap Event.fault? = [] := by
  rw [fault?_eventsOf, told_program h, p.fault?_events]

/-- A reading of significant tokens reports no fault exactly if the grammar derives their kinds. -/
theorem fault?_eventsOf_iff {ts : List Token} :
    (eventsOf ts).filterMap Event.fault? = [] ↔ IsProgram (kinds ts) := by
  constructor
  · rw [fault?_eventsOf, Reading.told, filterMap_fault?_told]
    exact isProgram_of_trace
  · intro h
    obtain ⟨p, hp⟩ := Syntax.exists_program h
    exact fault?_eventsOf_of_spells hp

end Grammar

/-! ## Acceptance -/

namespace Outcome

theorem grammarFaults_ofTokens {ts : List Token} {source : Text} {o : Outcome}
    (h : ofTokens ts source = .ok o) :
    grammarFaults o.errors = (eventsOf (Token.significant ts)).filterMap Event.fault? := by
  obtain ⟨s, hs, rfl⟩ := ofTokens_eq_ok.mp h
  simpa [grammarFaults, Session.start] using Session.grammarFaults_performAll hs

/-- A program that is analysed has no grammatical faults exactly if the grammar derives the kinds of
its significant tokens. -/
theorem isGrammatical_iff {ts : List Token} {source : Text} {o : Outcome}
    (h : ofTokens ts source = .ok o) :
    (∀ d ∈ o.errors, ∀ f, d.fault ≠ .grammar f) ↔ IsProgram (kinds (Token.significant ts)) := by
  rw [← Grammar.fault?_eventsOf_iff, ← grammarFaults_ofTokens h]
  constructor
  · intro hnone
    refine List.filterMap_eq_nil_iff.mpr fun d hd => ?_
    cases hf : d.fault with
    | grammar f => exact absurd hf (hnone d hd f)
    | scope f => rfl
  · intro hnil d hd f hf
    have := List.filterMap_eq_nil_iff.mp hnil d hd
    simp [hf, ProgramFault.grammar?] at this

/-- An undeclared name is no matter of grammar. -/
theorem isGrammatical_undeclared :
    ∃ o, ofTokens (Lexed.ofSource "begin read(x) end".toList).tokens "begin read(x) end".toList =
      .ok o ∧ ∀ d ∈ o.errors, ∀ f, d.fault ≠ .grammar f := by
  obtain ⟨o, ho⟩ := exists_ofTokens_ofSource
    (show (Lexed.ofSource "begin read(x) end".toList).errors = [] by decide)
  have hkinds : kinds (Token.significant (Lexed.ofSource "begin read(x) end".toList).tokens) =
      [.beginWord, .readWord, .leftParen, .identifier, .rightParen, .endWord] := by decide
  refine ⟨o, ho, (isGrammatical_iff ho).mpr ?_⟩
  rw [hkinds]
  exact .block .none (.last .read)

end Outcome

end BlockLang
