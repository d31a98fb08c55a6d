import BlockLang.Proofs.Analysis.Agreement
import BlockLang.Proofs.Analysis.Scoping
import BlockLang.Proofs.Lexeme.Identifier
import BlockLang.Proofs.Symbol.Renaming
import Mathlib.Logic.Equiv.Basic

/-!
# Renamed programs

The analysis of a program asks of the names in it only which of them are the same. So a program with
other names has the same outcome under these names, faults and all: no name is special.
-/

namespace BlockLang

open Grammar (Event eventsOf reachedIn)
open List (Forall₂)

/-! ## Renamed faults -/

def GrammarFault.rename (r : Text → Text) : GrammarFault → GrammarFault
  | missing k p => missing k p
  | invalidDeclaration => invalidDeclaration
  | unexpectedEnd => unexpectedEnd
  | notIdentifier x => notIdentifier (r x)
  | missingParameter x => missingParameter (r x)
  | illegalStatement x => illegalStatement (r x)
  | expectedFactor x => expectedFactor (r x)
  | expectedRelation x => expectedRelation (r x)
  | trailingSymbol x => trailingSymbol (r x)

def ScopeFault.rename (r : Text → Text) : ScopeFault → ScopeFault
  | duplicateVariable x => duplicateVariable (r x)
  | duplicateFunction x => duplicateFunction (r x)
  | undefinedVariable x => undefinedVariable (r x)
  | undefinedFunction x => undefinedFunction (r x)

def ProgramFault.rename (r : Text → Text) : ProgramFault → ProgramFault
  | grammar f => grammar (f.rename r)
  | scope f => scope (f.rename r)

/-- The fault quotes the new name, on the same line. -/
def Diagnostic.rename (r : Text → Text) (d : Diagnostic ProgramFault) : Diagnostic ProgramFault :=
  ⟨d.fault.rename r, d.line⟩

/-- A text that takes the place of another one. -/
def Replaces (r : Text → Text) (x y : Text) : Prop := y = r x

theorem GrammarFault.Alike.eq_rename {r : Text → Text} {f g : GrammarFault}
    (h : f.Alike (Replaces r) g) : g = f.rename r := by
  cases h with
  | plain hf => cases f <;> first | rfl | cases hf
  | notIdentifier hx | missingParameter hx | illegalStatement hx | expectedFactor hx
  | expectedRelation hx | trailingSymbol hx => exact congrArg _ hx

/-! ## Renamed sessions -/

namespace Session

/-- A session is where another one is, on the same line, and has found the same under new names. -/
structure Renamed (r : Text → Text) (s t : Session) : Prop where
  symbols : s.symbols.Renamed r t.symbols
  scope : t.scope = s.scope
  outer : t.outer = s.outer
  line : t.cursor.line = s.cursor.line
  errors : t.errors = s.errors.map (Diagnostic.rename r)

variable {r : Text → Text} {s t : Session}

theorem renamed_start (hr : r.Injective) (source source' : Text) :
    (start source).Renamed r (start source') :=
  ⟨SymbolTable.renamed_initial hr, rfl, rfl, rfl, by simp [start]⟩

theorem Renamed.note (h : s.Renamed r t) (f : ProgramFault) :
    (s.note f).Renamed r (t.note (f.rename r)) where
  symbols := h.symbols
  scope := h.scope
  outer := h.outer
  line := h.line
  errors := by simp [Session.note, h.errors, h.line, Diagnostic.rename]

theorem Renamed.noteIf (h : s.Renamed r t) (b : Bool) (f : ScopeFault) :
    (s.noteIf b f).Renamed r (t.noteIf b (f.rename r)) := by
  unfold Session.noteIf
  split
  · exact h.note (.scope f)
  · exact h

theorem Renamed.declare (hr : r.Injective) (h : s.Renamed r t) (x : Text) :
    (s.declare x).Renamed r (t.declare (r x)) := by
  obtain ⟨hanswer, hsymbols⟩ :=
    h.symbols.declareVariable hr x s.scope.procedure .localVar integerType s.scope.level
  simp only [declare_eq, h.scope, hanswer]
  refine Renamed.noteIf ?_ _ (.duplicateVariable x)
  exact ⟨hsymbols, rfl, h.outer, h.line, h.errors⟩

theorem Renamed.use (h : s.Renamed r t) (x : Text) : (s.use x).Renamed r (t.use (r x)) := by
  have hnone : (t.symbols.resolveVariable? (r x) t.scope.procedure t.scope.level).isNone =
      (s.symbols.resolveVariable? x s.scope.procedure s.scope.level).isNone := by
    rw [h.scope, h.symbols.resolveVariable?_eq, Option.isNone_map]
  rw [Session.use, Session.use, hnone]
  exact h.noteIf _ (.undefinedVariable x)

theorem Renamed.call (h : s.Renamed r t) (f : Text) : (s.call f).Renamed r (t.call (r f)) := by
  rw [Session.call, Session.call, h.scope, h.symbols.resolveProcedure?_eq]
  exact h.noteIf _ (.undefinedFunction f)

theorem Renamed.enter (hr : r.Injective) (h : s.Renamed r t) (f returnType : Text) :
    (s.enter f returnType).Renamed r (t.enter (r f) returnType) := by
  obtain ⟨hanswer, hsymbols⟩ :=
    h.symbols.declareProcedure hr f returnType (s.scope.level + 1) s.scope.procedure
  obtain ⟨-, hslot⟩ := hsymbols.declareVariable hr f
    (s.symbols.declareProcedure f returnType (s.scope.level + 1) s.scope.procedure).1.entry
    .localVar returnType (s.scope.level + 1)
  have hnote := h.noteIf
    (s.symbols.declareProcedure f returnType (s.scope.level + 1) s.scope.procedure).1.isDuplicate
    (.duplicateFunction f)
  simp only [Session.enter, h.scope, h.outer, hanswer]
  exact ⟨hslot, rfl, rfl, hnote.line, hnote.errors⟩

/-- The range of a parameter is recorded under the same condition. -/
theorem renamed_range {t u : SymbolTable} (h : t.Renamed r u) (b : Bool) (p : ProcId)
    (first : Nat) :
    (if b then t.setParameterRange p first t.variableCount else t).Renamed r
      (if b then u.setParameterRange p first u.variableCount else u) := by
  rw [h.variableCount_eq]
  split
  · exact h.setParameterRange p first t.variableCount
  · exact h

theorem Renamed.parameter (hr : r.Injective) (h : s.Renamed r t) (x : Option Text) :
    (s.parameter x).Renamed r (t.parameter (x.map r)) := by
  refine ⟨?_, h.scope, h.outer, h.line, h.errors⟩
  simp only [Session.parameter, h.scope, h.symbols.variableCount_eq]
  cases x with
  | none => exact renamed_range h.symbols _ _ _
  | some x =>
      obtain ⟨-, hdeclared⟩ :=
        h.symbols.declareVariable hr x s.scope.procedure .parameter integerType s.scope.level
      exact renamed_range hdeclared _ _ _

theorem Renamed.leave (h : s.Renamed r t) : s.leave.Renamed r t.leave := by
  unfold Session.leave
  rw [h.outer]
  split
  · exact h
  · exact ⟨h.symbols, rfl, rfl, h.line, h.errors⟩

/-- What is told under new names has the same effect under these names. -/
theorem Renamed.perform (hr : r.Injective) (h : s.Renamed r t) {e f : Event}
    (hef : e.Alike (Replaces r) Eq f) (he : e.isReach = false) :
    ∃ s' t', s.perform e = .ok s' ∧ t.perform f = .ok t' ∧ s'.Renamed r t' := by
  cases hef with
  | reach ht => cases he
  | report hf =>
      cases hf.eq_rename
      exact ⟨_, _, rfl, rfl, h.note _⟩
  | declare hx =>
      cases hx
      exact ⟨_, _, rfl, rfl, h.declare hr _⟩
  | use hx =>
      cases hx
      exact ⟨_, _, rfl, rfl, h.use _⟩
  | call hx =>
      cases hx
      exact ⟨_, _, rfl, rfl, h.call _⟩
  | enter hx hs =>
      cases hx
      cases hs
      exact ⟨_, _, rfl, rfl, h.enter hr _ _⟩
  | @parameter x _ hx =>
      cases hx
      exact ⟨_, _, rfl, rfl, h.parameter hr (some x)⟩
  | noParameter => exact ⟨_, _, rfl, rfl, h.parameter hr none⟩
  | leave => exact ⟨_, _, rfl, rfl, h.leave⟩

/-- Over source texts that have the tokens on the same lines, sessions go on side by side. -/
theorem Renamed.performAll (hr : r.Injective) {es fs : List Event}
    (hes : Forall₂ (Event.Alike (Replaces r) Eq) es fs) (h : s.Renamed r t)
    (hlines : (reachedIn fs).map (·.line) = (reachedIn es).map (·.line)) {ts us : List Token}
    (hs : s.cursor.Faces (reachedIn es ++ ts)) (ht : t.cursor.Faces (reachedIn fs ++ us)) :
    ∃ s' t', s.performAll es = .ok s' ∧ t.performAll fs = .ok t' ∧ s'.Renamed r t' := by
  induction hes generalizing s t with
  | nil => exact ⟨s, t, rfl, rfl, h⟩
  | @cons e f es fs hef _ ih =>
      cases he : e.isReach with
      | true =>
          cases hef with
          | @reach u v huv =>
              obtain ⟨hline, hlines⟩ := List.cons.inj hlines
              obtain ⟨c, hc, hcline, hcfaces⟩ := Cursor.Faces.seek hs
              obtain ⟨d, hd, hdline, hdfaces⟩ := Cursor.Faces.seek ht
              have hmoved : Renamed r { s with cursor := c } { t with cursor := d } := by
                refine ⟨h.symbols, h.scope, h.outer, ?_, h.errors⟩
                simp only [Cursor.line, hcline, hdline, hline]
              obtain ⟨s', t', hs', ht', hend⟩ := ih hmoved hlines hcfaces hdfaces
              refine ⟨s', t', ?_, ?_, hend⟩
              · exact (performAll_cons_ok (by rw [Session.perform, hc]; rfl) es).trans hs'
              · exact (performAll_cons_ok (by rw [Session.perform, hd]; rfl) fs).trans ht'
          | _ => cases he
      | false =>
          obtain ⟨s₁, t₁, hs₁, ht₁, h₁⟩ := h.perform hr hef he
          have hf : f.isReach = false := hef.isReach_eq.trans he
          obtain ⟨_, hs₁', hgrows⟩ := s.perform_grows he
          obtain ⟨_, ht₁', hgrows'⟩ := t.perform_grows hf
          cases hs₁.symm.trans hs₁'
          cases ht₁.symm.trans ht₁'
          rw [Grammar.reachedIn_cons_of_not he] at hlines hs
          rw [Grammar.reachedIn_cons_of_not hf] at hlines ht
          obtain ⟨s', t', hs', ht', hend⟩ := ih h₁ hlines (hgrows.cursor ▸ hs) (hgrows'.cursor ▸ ht)
          exact ⟨s', t', (performAll_cons_ok hs₁ es).trans hs',
            (performAll_cons_ok ht₁ fs).trans ht', hend⟩

end Session

/-! ## Renamed outcomes -/

/-- Every procedure but the main one, which comes first, has a parent. -/
theorem SymbolTable.WellFormed.parent_eq_none_iff {t : SymbolTable} (h : t.WellFormed) {i : Nat}
    {p : Procedure} (hp : t.procedureRows[i]? = some p) : p.parent = none ↔ i = 0 := by
  have hkey : t.key? ⟨i⟩ = some p.key := key?_of_procedure hp
  obtain ⟨m, hm, hparent, -⟩ := h.main
  constructor
  · intro hnone
    apply Classical.byContradiction
    intro hi
    have hne : (⟨i⟩ : ProcId) ≠ root := fun heq => hi (ProcId.mk.inj heq)
    obtain ⟨q, k, hq, -⟩ := h.inside ⟨i⟩ p.key hkey hne
    cases hnone.symm.trans hq
  · rintro rfl
    cases hm.symm.trans hkey
    exact hparent

namespace Outcome

variable {source source' : Text} {ρ : Identifier → Identifier}

/-- The tokens of a source text are renamed as their lexemes are, all of them. -/
theorem alike_rename (source : Text) (ρ : Identifier → Identifier) :
    Forall₂ (Token.Alike (Replaces (Identifier.extend ρ)) Eq) (Lexed.ofSource source).significant
      ((Lexed.ofSource source).significant.map (Token.rename (Identifier.extend ρ))) := by
  rw [List.forall₂_map_right_iff, List.forall₂_same]
  intro t ht
  refine ⟨t.kind_rename, Token.lexeme_rename (Lexed.isLexeme_of_mem_significant ht), ?_⟩
  intro hk
  rw [Token.rename_of_kind (by simp [hk])]

/-- What a session seeks is at the start of what its cursor faces. -/
theorem faces_eventsOf {source : Text} (h : (Lexed.ofSource source).errors = []) :
    ∃ left, (Session.start source).cursor.Faces
      (reachedIn (eventsOf (Lexed.ofSource source).significant) ++ left) := by
  have hprefix : reachedIn (eventsOf (Lexed.ofSource source).significant) <+:
      (Lexed.ofSource source).significant := by
    rw [Grammar.reachedIn_eventsOf]
    exact List.take_prefix _ _
  obtain ⟨left, hleft⟩ := hprefix
  refine ⟨left, ?_⟩
  rw [hleft]
  exact Lexed.faces_significant h

/-- The analysis of a program under other names comes to the outcome under these names. The entries
of its symbol table are at the same positions and differ in their names only, the main procedure not
even in that; declarations and uses are found at the same positions; and the faults are the same, in
the same order and on the same lines, with the new names in them. -/
theorem ofTokens_rename (hρ : ρ.Injective) (h : (Lexed.ofSource source).errors = [])
    (h' : (Lexed.ofSource source').errors = [])
    (htokens : (Lexed.ofSource source').tokens =
      (Lexed.ofSource source).tokens.map (Token.rename (Identifier.extend ρ))) :
    let r := Identifier.extend ρ
    ∃ o o', ofTokens (Lexed.ofSource source).tokens source = .ok o ∧
      ofTokens (Lexed.ofSource source').tokens source' = .ok o' ∧
      o'.symbols.procedureRows = o.symbols.procedureRows.map (Procedure.rename r) ∧
      (∀ (i : Nat) (p : Procedure), o.symbols.procedureRows[i]? = some p →
        (p.parent = none ↔ i = 0)) ∧
      o'.symbols.variableRows = o.symbols.variableRows.map (Variable.rename r) ∧
      (∀ k, o'.symbols.findProcedure? (k.rename r) = o.symbols.findProcedure? k) ∧
      (∀ k, o'.symbols.findVariable? (k.rename r) =
        (o.symbols.findVariable? k).map (Variable.rename r)) ∧
      o'.errors = o.errors.map (Diagnostic.rename r) := by
  intro r
  have hr : r.Injective := Identifier.extend_injective hρ
  have hus : (Lexed.ofSource source').significant =
      (Lexed.ofSource source).significant.map (Token.rename r) := by
    rw [Lexed.significant, htokens, Token.significant_map_rename, Lexed.significant]
  have halike := Grammar.eventsOf_alike (alike_rename source ρ) (Identifier.extend_of_not rfl).symm
    (Identifier.extend_of_not (by decide)).symm
  obtain ⟨left, hfaces⟩ := faces_eventsOf h
  obtain ⟨left', hfaces'⟩ := faces_eventsOf h'
  have hlines : (reachedIn (eventsOf (Lexed.ofSource source').significant)).map (·.line) =
      (reachedIn (eventsOf (Lexed.ofSource source).significant)).map (·.line) := by
    rw [hus, Grammar.reachedIn_eventsOf, Grammar.reachedIn_eventsOf]
    simp only [List.map_map, List.map_take, Function.comp_def, Token.kind_rename,
      Token.line_rename]
  rw [← hus] at halike
  obtain ⟨s, s', hs, hs', hend⟩ :=
    (Session.renamed_start hr source source').performAll hr halike hlines hfaces hfaces'
  have hwf := ((Session.start_mirrors source).performAll hs).mirrors.records.wellFormed
  refine ⟨_, _, ofTokens_eq_ok.mpr ⟨s, hs, rfl⟩, ofTokens_eq_ok.mpr ⟨s', hs', rfl⟩, ?_⟩
  refine ⟨hend.symbols.procedureRows, fun i p hp => hwf.parent_eq_none_iff hp,
    hend.symbols.variableRows, hend.symbols.findProcedure?, hend.symbols.findVariable?_eq, ?_⟩
  rw [hend.errors, Array.toList_map]

/-- A function can have the name of the main procedure, also where other names are undefined. -/
theorem ofTokens_rename_main :
    let ρ : Identifier → Identifier :=
      Equiv.swap ⟨"f".toList, by decide⟩ ⟨"main".toList, by decide⟩
    let source := "begin integer function f(x);begin f:=main end;\ny:=f(1) end".toList
    let source' := "begin integer function main(x);begin main:=f end;\ny:=main(1) end".toList
    (Lexed.ofSource source').tokens =
      (Lexed.ofSource source).tokens.map (Token.rename (Identifier.extend ρ)) ∧
    ∃ o o', ofTokens (Lexed.ofSource source).tokens source = .ok o ∧
      ofTokens (Lexed.ofSource source').tokens source' = .ok o' ∧
      o'.symbols.procedureRows =
        o.symbols.procedureRows.map (Procedure.rename (Identifier.extend ρ)) ∧
      o'.errors = o.errors.map (Diagnostic.rename (Identifier.extend ρ)) := by
  intro ρ source source'
  have htokens : (Lexed.ofSource source').tokens =
      (Lexed.ofSource source).tokens.map (Token.rename (Identifier.extend ρ)) := by
    decide +kernel
  have hclean : (Lexed.ofSource source).errors = [] := by decide +kernel
  have hclean' : (Lexed.ofSource source').errors = [] := by decide +kernel
  obtain ⟨o, o', ho, ho', hprocedures, -, -, -, -, herrors⟩ :=
    ofTokens_rename (Equiv.injective _) hclean hclean' htokens
  exact ⟨htokens, o, o', ho, ho', hprocedures, herrors⟩

end Outcome

end BlockLang
