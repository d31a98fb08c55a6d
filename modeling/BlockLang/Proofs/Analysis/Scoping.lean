import BlockLang.Proofs.Analysis.Acceptance
import BlockLang.Proofs.Symbol.Declaration
import BlockLang.Proofs.Syntax.Scoping

/-!
# Scoping

A session keeps in its symbol table what was declared so far, so that it notes the scope faults that
the syntax tree of the program has, in their order and no others.
-/

namespace BlockLang

open Grammar (Event IsProgram kinds eventsOf)
open Syntax (Occurrence HasFunction HasLocal HasParameter Agree)
open Syntax (occurrence? placeAfter occurrencesOf)

/-! ## Tables and declarations -/

/-- A table has a procedure for each declared function and a variable for each declared one, and
nothing else. -/
structure SymbolTable.Records (t : SymbolTable) (past : List Occurrence) : Prop where
  wellFormed : t.WellFormed
  functions : ∀ f ρ, (∃ q, t.HasPath q (f :: ρ)) ↔ HasFunction past f ρ
  locals : ∀ x ρ, t.Has x .localVar ρ ↔ HasLocal past x ρ
  parameters : ∀ x ρ, t.Has x .parameter ρ ↔ HasParameter past x ρ

namespace SymbolTable.Records

variable {t t' : SymbolTable} {past past' : List Occurrence} {p q : ProcId} {π ρ : List Text}

theorem initial : SymbolTable.initial.Records [] where
  wellFormed := initial_wellFormed
  functions f ρ := by
    constructor
    · rintro ⟨q, hq⟩
      cases hq with
      | inside hk hparent =>
          obtain ⟨i⟩ := q
          cases i with
          | zero => cases hk; cases hparent
          | succ i => simp [SymbolTable.initial, key?, procedure?] at hk
    · intro h
      cases h
  locals x ρ := by simp [Has, SymbolTable.initial, HasLocal, HasFunction]
  parameters x ρ := by simp [Has, SymbolTable.initial, HasParameter]

theorem of_agree (h : t.Records past) (ha : Agree past past') : t.Records past' where
  wellFormed := h.wellFormed
  functions f ρ := (h.functions f ρ).trans (ha _ rfl)
  locals x ρ := (h.locals x ρ).trans (or_congr (ha _ rfl) (and_congr_right fun _ => ha _ rfl))
  parameters x ρ := (h.parameters x ρ).trans (ha _ rfl)

/-- Recording a range declares nothing. -/
theorem setParameterRange (h : t.Records past) (p : ProcId) (first last : Nat) :
    (t.setParameterRange p first last).Records past := by
  have hhas : ∀ x k ρ, (t.setParameterRange p first last).Has x k ρ ↔ t.Has x k ρ := by
    intro x k ρ
    simp only [Has, hasPath_setParameterRange]
    rfl
  refine ⟨h.wellFormed.setParameterRange p first last, ?_, ?_, ?_⟩
  · simpa only [hasPath_setParameterRange] using h.functions
  · simpa only [hhas] using h.locals
  · simpa only [hhas] using h.parameters

theorem declareVariable (h : t.Records past) (hp : t.HasPath p π) (x type : Text) :
    (t.declareVariable x p .localVar type π.length).2.Records (⟨.variable x, π⟩ :: past) where
  wellFormed := h.wellFormed.declareVariable_of_hasPath hp x .localVar type
  functions f ρ := by
    simp only [hasPath_declareVariable, h.functions]
    simp [HasFunction]
  locals y ρ := by
    rw [h.wellFormed.has_declareVariable_iff hp, h.locals]
    simp only [HasLocal, HasFunction, List.mem_cons, Occurrence.mk.injEq]
    grind
  parameters y ρ := by
    rw [h.wellFormed.has_declareVariable_iff hp, h.parameters]
    simp [HasParameter]

theorem declareParameter (h : t.Records past) (hp : t.HasPath p π) (x type : Text) :
    (t.declareVariable x p .parameter type π.length).2.Records (⟨.parameter x, π⟩ :: past) where
  wellFormed := h.wellFormed.declareVariable_of_hasPath hp x .parameter type
  functions f ρ := by
    simp only [hasPath_declareVariable, h.functions]
    simp [HasFunction]
  locals y ρ := by
    rw [h.wellFormed.has_declareVariable_iff hp, h.locals]
    simp [HasLocal, HasFunction]
  parameters y ρ := by
    rw [h.wellFormed.has_declareVariable_iff hp, h.parameters]
    simp only [HasParameter, List.mem_cons, Occurrence.mk.injEq]
    grind

/-- A function is declared with the slot for its result. -/
theorem declareFunction (h : t.Records past) (hp : t.HasPath p π) (f type : Text) :
    let r := t.declareProcedure f type (π.length + 1) p
    (r.2.declareVariable f r.1.entry .localVar type (π.length + 1)).2.Records
      (⟨.function f, π⟩ :: past) := by
  intro r
  have hwf : r.2.WellFormed := h.wellFormed.declareProcedure_of_hasPath hp f type
  have hentry : r.2.HasPath r.1.entry (f :: π) :=
    h.wellFormed.hasPath_entry_declareProcedure hp f type
  have hpath : ∀ ρ, (∃ q, r.2.HasPath q ρ) ↔ (∃ q, t.HasPath q ρ) ∨ ρ = f :: π := fun ρ =>
    h.wellFormed.exists_hasPath_declareProcedure_iff hp f type
  have hhas : ∀ y k ρ, r.2.Has y k ρ ↔ t.Has y k ρ := fun y k ρ =>
    h.wellFormed.has_declareProcedure_iff hp f type y k
  refine ⟨hwf.declareVariable_of_hasPath hentry f .localVar type, ?_, ?_, ?_⟩
  · intro g ρ
    simp only [hasPath_declareVariable, hpath, h.functions, HasFunction, List.mem_cons]
    grind
  · -- the slot is a local variable of the new place, which `HasLocal` reads off the function
    intro y ρ
    rw [← List.length_cons, hwf.has_declareVariable_iff hentry, hhas, h.locals]
    simp only [HasLocal, HasFunction, List.mem_cons, Occurrence.mk.injEq]
    cases ρ <;> grind
  · intro y ρ
    rw [← List.length_cons, hwf.has_declareVariable_iff hentry, hhas, h.parameters]
    simp [HasParameter]

end SymbolTable.Records

/-! ## Scopes of a session -/

/-- The scope of the procedure with a path. -/
structure Scope.IsAt (c : Scope) (t : SymbolTable) (π : List Text) : Prop where
  hasPath : t.HasPath c.procedure π
  level : c.level = π.length

/-- A scope and those around it, along a path. -/
inductive SymbolTable.Scopes (t : SymbolTable) : List Text → Scope → List Scope → Prop
  | main {c : Scope} (hc : c.IsAt t []) : Scopes t [] c []
  | inside {f : Text} {π : List Text} {c o : Scope} {os : List Scope} (hc : c.IsAt t (f :: π))
      (ho : Scopes t π o os) : Scopes t (f :: π) c (o :: os)

theorem SymbolTable.Scopes.isAt {t : SymbolTable} {π : List Text} {c : Scope} {os : List Scope}
    (h : t.Scopes π c os) : c.IsAt t π := by
  cases h with
  | main hc => exact hc
  | inside hc _ => exact hc

theorem SymbolTable.Scopes.mono {t t' : SymbolTable} {π : List Text} {c : Scope} {os : List Scope}
    (ht : ∀ q ρ, t.HasPath q ρ → t'.HasPath q ρ) (h : t.Scopes π c os) : t'.Scopes π c os := by
  induction h with
  | main hc => exact .main ⟨ht _ _ hc.hasPath, hc.level⟩
  | inside hc _ ih => exact .inside ⟨ht _ _ hc.hasPath, hc.level⟩ ih

/-! ## Scope faults of a session -/

def ProgramFault.scope? : ProgramFault → Option ScopeFault
  | grammar _ => none
  | scope f => some f

def scopeFaults (ds : List (Diagnostic ProgramFault)) : List ScopeFault :=
  ds.filterMap fun d => d.fault.scope?

theorem toList_ite_eq {α : Type} {b : Bool} {P : Prop} [Decidable P] (h : b = true ↔ P) (a : α) :
    (if P then some a else none).toList = if b then [a] else [] := by
  by_cases hP : P
  · simp [hP, h.mpr hP]
  · simp [hP, mt h.mp hP]

namespace Session

/-- A session that has met some occurrences and is in a place. -/
structure Mirrors (s : Session) (past : List Occurrence) (π : List Text) : Prop where
  records : s.symbols.Records past
  scopes : s.symbols.Scopes π s.scope s.outer

variable {s t : Session} {past : List Occurrence} {π : List Text}

theorem start_mirrors (source : Text) : (start source).Mirrors [] [] :=
  ⟨.initial, .main ⟨.main, rfl⟩⟩

theorem Mirrors.of_agree {past' : List Occurrence} (h : s.Mirrors past π)
    (ha : Agree past past') : s.Mirrors past' π :=
  ⟨h.records.of_agree ha, h.scopes⟩

theorem Mirrors.noteIf (h : s.Mirrors past π) (b : Bool) (f : ScopeFault) :
    (s.noteIf b f).Mirrors past π := by
  unfold Session.noteIf
  split <;> exact ⟨h.records, h.scopes⟩

theorem scopeFaults_noteIf (s : Session) (b : Bool) (f : ScopeFault) :
    scopeFaults (s.noteIf b f).errors.toList =
      scopeFaults s.errors.toList ++ if b then [f] else [] := by
  unfold noteIf
  split <;> simp [scopeFaults, note, ProgramFault.scope?]

/-- A session goes on with some occurrences, comes to a place and notes the faults of them. -/
structure Notes (s t : Session) (past os : List Occurrence) (π : List Text) : Prop where
  mirrors : t.Mirrors (os.reverse ++ past) π
  faults : scopeFaults t.errors.toList =
    scopeFaults s.errors.toList ++ Syntax.scopeFaults past os

theorem Notes.of_mirrors (h : t.Mirrors past π)
    (hf : scopeFaults t.errors.toList = scopeFaults s.errors.toList) : s.Notes t past [] π :=
  ⟨h, by rw [hf, Syntax.scopeFaults, List.append_nil]⟩

theorem Notes.of_fault {o : Occurrence} (h : t.Mirrors (o :: past) π)
    (hf : scopeFaults t.errors.toList =
      scopeFaults s.errors.toList ++ (o.fault? past).toList) : s.Notes t past [o] π :=
  ⟨h, by rw [hf, Syntax.scopeFaults, Syntax.scopeFaults, List.append_nil]⟩

theorem Notes.trans {u : Session} {os us : List Occurrence} {ρ : List Text}
    (h : s.Notes t past os π) (h' : t.Notes u (os.reverse ++ past) us ρ) :
    s.Notes u past (os ++ us) ρ where
  mirrors := by simpa using h'.mirrors
  faults := by rw [h'.faults, h.faults, Syntax.scopeFaults_append, List.append_assoc]

/-! ## Steps of a session -/

theorem Mirrors.declare (h : s.Mirrors past π) (x : Text) :
    s.Notes (s.declare x) past [⟨.variable x, π⟩] π := by
  obtain ⟨hp, hl⟩ := h.scopes.isAt
  have hduplicate := h.records.wellFormed.isDuplicate_declareVariable_iff hp x .localVar integerType
  rw [h.records.locals] at hduplicate
  rw [declare_eq, hl]
  refine .of_fault (Mirrors.noteIf ⟨?_, ?_⟩ _ _) ?_
  · exact h.records.declareVariable hp x integerType
  · exact h.scopes.mono fun q ρ hq => (SymbolTable.hasPath_declareVariable ..).mpr hq
  · rw [scopeFaults_noteIf]
    exact congrArg (scopeFaults s.errors.toList ++ ·) (toList_ite_eq hduplicate _).symm

theorem Mirrors.use (h : s.Mirrors past π) (x : Text) :
    s.Notes (s.use x) past [⟨.use x, π⟩] π := by
  obtain ⟨hp, hl⟩ := h.scopes.isAt
  have hsome := h.records.wellFormed.isSome_resolveVariable?_iff_has hp x
  have hnone : (s.symbols.resolveVariable? x s.scope.procedure π.length).isNone = true ↔
      ¬ ∃ σ ∈ π.tails, HasLocal past x σ ∨ HasParameter past x σ := by
    rw [← Option.not_isSome, Bool.not_eq_true', ← Bool.not_eq_true, hsome]
    simp only [List.mem_tails, h.records.locals, h.records.parameters]
  rw [Session.use, hl]
  refine .of_fault ((h.noteIf _ _).of_agree (Syntax.agree_cons_of_not_declares rfl past).symm) ?_
  rw [scopeFaults_noteIf, ← toList_ite_eq hnone, ite_not]
  rfl

theorem Mirrors.call (h : s.Mirrors past π) (f : Text) :
    s.Notes (s.call f) past [⟨.call f, π⟩] π := by
  obtain ⟨hp, -⟩ := h.scopes.isAt
  have hsome := h.records.wellFormed.isSome_resolveProcedure?_iff hp f
  have hnone : (s.symbols.resolveProcedure? f s.scope.procedure).isNone = true ↔
      ¬ ∃ σ ∈ π.tails, HasFunction past f σ := by
    rw [← Option.not_isSome, Bool.not_eq_true', ← Bool.not_eq_true, hsome]
    simp only [List.mem_tails, h.records.functions]
  rw [Session.call]
  refine .of_fault ((h.noteIf _ _).of_agree (Syntax.agree_cons_of_not_declares rfl past).symm) ?_
  rw [scopeFaults_noteIf, ← toList_ite_eq hnone, ite_not]
  rfl

theorem Mirrors.enter (h : s.Mirrors past π) (f type : Text) :
    s.Notes (s.enter f type) past [⟨.function f, π⟩] (f :: π) := by
  obtain ⟨hp, hl⟩ := h.scopes.isAt
  have hwf := h.records.wellFormed
  have hduplicate := hwf.isDuplicate_declareProcedure_iff hp f type
  rw [h.records.functions] at hduplicate
  have hextends := s.symbols.extends_declareProcedure f type (π.length + 1) s.scope.procedure
  have hentry := hwf.hasPath_entry_declareProcedure hp f type
  rw [Session.enter, hl]
  refine .of_fault ⟨?_, .inside ⟨?_, rfl⟩ (h.scopes.mono ?_)⟩ ?_
  · exact h.records.declareFunction hp f type
  · exact (SymbolTable.hasPath_declareVariable ..).mpr hentry
  · exact fun q ρ hq => (SymbolTable.hasPath_declareVariable ..).mpr (hextends.hasPath hq)
  · rw [scopeFaults_noteIf]
    exact congrArg (scopeFaults s.errors.toList ++ ·) (toList_ite_eq hduplicate _).symm

/-- The range of the parameters is no matter of scope. -/
theorem mirrors_of_range {t : SymbolTable} (ht : t.Records past) (hs : t.Scopes π s.scope s.outer)
    (b : Bool) (p : ProcId) (first last : Nat) :
    { s with symbols := if b then t.setParameterRange p first last else t }.Mirrors past π := by
  cases b with
  | false => exact ⟨ht, hs⟩
  | true =>
      exact ⟨ht.setParameterRange p first last,
        hs.mono fun q ρ hq => (t.hasPath_setParameterRange p first last).mpr hq⟩

theorem Mirrors.parameter (h : s.Mirrors past π) (x : Text) :
    s.Notes (s.parameter (some x)) past [⟨.parameter x, π⟩] π := by
  obtain ⟨hp, hl⟩ := h.scopes.isAt
  have hrecords := h.records.declareParameter hp x integerType
  rw [← hl] at hrecords
  refine .of_fault (mirrors_of_range hrecords ?_ ..) (List.append_nil _).symm
  exact h.scopes.mono fun q ρ hq => (SymbolTable.hasPath_declareVariable ..).mpr hq

theorem Mirrors.leave (h : s.Mirrors past π) : s.Notes s.leave past [] π.tail := by
  obtain ⟨hrecords, hscopes⟩ := h
  cases s with
  | mk cursor symbols scope outer errors =>
      cases hscopes with
      | main hc => exact .of_mirrors ⟨hrecords, .main hc⟩ rfl
      | inside hc ho => exact .of_mirrors ⟨hrecords, ho⟩ rfl

/-- Following an event, a session notes the fault of the occurrence that the event tells of. -/
theorem Mirrors.perform (h : s.Mirrors past π) {e : Event} (hs : s.perform e = .ok t) :
    s.Notes t past (occurrence? π e).toList (placeAfter π e) := by
  cases e with
  | reach u =>
      obtain ⟨c, -, rfl⟩ := perform_reach hs
      exact .of_mirrors ⟨h.records, h.scopes⟩ rfl
  | report f =>
      cases hs
      exact .of_mirrors ⟨h.records, h.scopes⟩ (by simp [scopeFaults, note, ProgramFault.scope?])
  | declare x => cases hs; exact h.declare x
  | use x => cases hs; exact h.use x
  | call f => cases hs; exact h.call f
  | enter f r => cases hs; exact h.enter f r
  | parameter x =>
      cases hs
      cases x with
      | none => exact .of_mirrors (mirrors_of_range h.records h.scopes ..) rfl
      | some x => exact h.parameter x
  | leave => cases hs; exact h.leave

/-- Following events, a session notes the faults of the occurrences that they tell of. -/
theorem Mirrors.performAll {es : List Event} (h : s.Mirrors past π) (hs : s.performAll es = .ok t) :
    s.Notes t past (occurrencesOf π es) (es.foldl placeAfter π) := by
  -- `Mirrors` is what every step keeps; its place and its past move on with the events
  induction es generalizing s past π with
  | nil =>
      cases hs
      exact .of_mirrors h rfl
  | cons e es ih =>
      obtain ⟨u, hu, hs⟩ := performAll_cons_eq_ok.mp hs
      have hstep := h.perform hu
      exact hstep.trans (ih hstep.mirrors hs)

end Session

/-! ## Scope faults of a program -/

namespace Syntax

theorem occurrencesOf_told (π : List Text) (es : List Event) :
    occurrencesOf π (es.filter fun e => !e.isReach) = occurrencesOf π es := by
  induction es generalizing π with
  | nil => rfl
  | cons e es ih =>
      cases e with
      | reach u => exact ih π
      | _ => exact congrArg (_ ++ ·) (ih _)

theorem Program.alike_eventsOf {p : Program} {ts : List Token} (h : p.Spells ts) :
    Alike (occurrencesOf [] (eventsOf ts)) p.occurrences := by
  rw [← occurrencesOf_told, Grammar.told_eventsOf, Grammar.told_program h]
  exact p.alike_events

end Syntax

theorem map_fault_eq {ds : List (Diagnostic ProgramFault)} (h : grammarFaults ds = []) :
    ds.map (·.fault) = (scopeFaults ds).map .scope := by
  induction ds with
  | nil => rfl
  | cons d ds ih =>
      obtain ⟨f, line⟩ := d
      cases f with
      | grammar f => simp [grammarFaults, ProgramFault.grammar?] at h
      | scope f => exact congrArg (.scope f :: ·) (ih h)

namespace Outcome

theorem wellFormed_symbols {ts : List Token} {source : Text} {o : Outcome}
    (h : ofTokens ts source = .ok o) : o.symbols.WellFormed := by
  obtain ⟨s, hs, rfl⟩ := ofTokens_eq_ok.mp h
  exact ((Session.start_mirrors source).performAll hs).mirrors.records.wellFormed

/-- The analysis of a grammatical program finds the scope faults of its syntax tree, in their order
and no other faults. Its symbol table has one procedure for all declarations of a function in one
place. -/
theorem errors_eq_scopeFaults {ts : List Token} {source : Text} {o : Outcome}
    (h : ofTokens ts source = .ok o) (hts : IsProgram (kinds (Token.significant ts))) :
    (∃ p : Syntax.Program, p.Spells (Token.significant ts)) ∧
      ∀ p : Syntax.Program, p.Spells (Token.significant ts) →
        o.errors.map (·.fault) = p.scopeFaults.map .scope ∧
          ∀ f π, ⟨.function f, π⟩ ∈ p.occurrences → ∃! q, o.symbols.HasPath q (f :: π) := by
  refine ⟨Syntax.exists_program hts, fun p hp => ?_⟩
  have hgrammar : grammarFaults o.errors = [] := by
    rw [grammarFaults_ofTokens h, Grammar.fault?_eventsOf_iff.mpr hts]
  obtain ⟨s, hs, rfl⟩ := ofTokens_eq_ok.mp h
  have hnotes := (Session.start_mirrors source).performAll hs
  have halike := p.alike_eventsOf hp
  constructor
  · have hfaults := hnotes.faults
    rw [halike.scopeFaults_eq] at hfaults
    rw [map_fault_eq hgrammar, hfaults]
    rfl
  · intro f π hf
    have hrecords := hnotes.mirrors.records
    have hpast := (halike.agree ⟨.function f, π⟩ rfl).mpr hf
    obtain ⟨q, hq⟩ := (hrecords.functions f π).mpr (by simpa [HasFunction] using hpast)
    exact ⟨q, hq, fun r hr => hrecords.wellFormed.eq_of_hasPath hr hq⟩

/-- The second declaration of a variable, the call of no function and the use of no variable. -/
theorem errors_eq_scopeFaults_undefined :
    ∃ o, ofTokens (Lexed.ofSource "begin integer x;integer x;x:=f(y) end".toList).tokens
        "begin integer x;integer x;x:=f(y) end".toList = .ok o ∧
      o.errors.map (·.fault) = [.scope (.duplicateVariable "x".toList),
        .scope (.undefinedFunction "f".toList), .scope (.undefinedVariable "y".toList)] := by
  obtain ⟨o, ho⟩ := exists_ofTokens_ofSource (show (Lexed.ofSource
    "begin integer x;integer x;x:=f(y) end".toList).errors = [] by decide +kernel)
  have hts : Token.significant (Lexed.ofSource
      "begin integer x;integer x;x:=f(y) end".toList).tokens =
      ⟨"begin".toList, .beginWord, 1⟩ ::
        (([⟨"integer".toList, .integerWord, 1⟩, ⟨"x".toList, .identifier, 1⟩] ++
            ⟨";".toList, .semicolon, 1⟩ ::
              ([⟨"integer".toList, .integerWord, 1⟩, ⟨"x".toList, .identifier, 1⟩] ++
                ⟨";".toList, .semicolon, 1⟩ :: [])) ++
          ((⟨"x".toList, .identifier, 1⟩ :: ⟨":=".toList, .assign, 1⟩ ::
              ⟨"f".toList, .identifier, 1⟩ :: ⟨"(".toList, .leftParen, 1⟩ ::
                ([⟨"y".toList, .identifier, 1⟩] ++ [⟨")".toList, .rightParen, 1⟩])) ++
            [⟨"end".toList, .endWord, 1⟩])) := by decide +kernel
  have hkinds : IsProgram (kinds (Token.significant (Lexed.ofSource
      "begin integer x;integer x;x:=f(y) end".toList).tokens)) := by
    rw [hts]
    exact .block (.more .variable (.more .variable .none))
      (.last (.assignment (.term (.factor (.call (.term (.factor .name)))))))
  have hp : Syntax.Program.Spells
      ⟨.more (.variable "x".toList) (.more (.variable "x".toList) .none),
        .last (.assignment "x".toList
          (.term (.factor (.call "f".toList (.term (.factor (.name "y".toList)))))))⟩
      (Token.significant (Lexed.ofSource
        "begin integer x;integer x;x:=f(y) end".toList).tokens) := by
    rw [hts]
    refine .block rfl (.more (.variable rfl ⟨rfl, rfl⟩) rfl ?_) (.last ?_) rfl
    · exact .more (.variable rfl ⟨rfl, rfl⟩) rfl .none
    · exact .assignment ⟨rfl, rfl⟩ rfl
        (.term (.factor (.call ⟨rfl, rfl⟩ rfl (.term (.factor (.name ⟨rfl, rfl⟩))) rfl)))
  refine ⟨o, ho, ((errors_eq_scopeFaults ho hkinds).2 _ hp).1.trans ?_⟩
  decide +kernel

end Outcome

end BlockLang
