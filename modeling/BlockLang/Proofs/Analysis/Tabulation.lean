import BlockLang.Proofs.Analysis.Agreement
import BlockLang.Proofs.Analysis.Scoping
import BlockLang.Proofs.Syntax.Entries

/-!
# Tabulation

The analysis of a program without faults leaves no declaration out: the symbol table holds the
entries of the syntax tree, in the order of the source text, and nothing else.
-/

namespace BlockLang

open Grammar (Event eventsOf)
open Syntax (Entries Occurrence)

/-! ## Fresh identities -/

namespace SymbolTable

variable {t : SymbolTable}

/-- A procedure that is not in the table owns no variable. -/
theorem WellFormed.variableIndex_eq_none (h : t.WellFormed) {k : VarKey}
    (hk : t.key? k.owner = none) : t.variableIndex[k]? = none := by
  cases hi : t.variableIndex[k]? with
  | none => rfl
  | some i =>
      obtain ⟨v, hv, rfl⟩ := (h.variableIndex_iff k i).mp hi
      obtain ⟨m, hm, -⟩ := h.owned v (Array.mem_of_getElem? hv)
      cases hm.symm.trans hk

theorem key?_size (t : SymbolTable) : t.key? ⟨t.procedureRows.size⟩ = none := by
  simp [key?, procedure?]

theorem isDuplicate_declareProcedure_eq_false {f type : Text} {level : Nat} {p : ProcId}
    (h : (t.declareProcedure f type level p).1.isDuplicate = false) :
    t.declareProcedure f type level p = (.new ⟨t.procedureRows.size⟩,
      t.pushProcedure ⟨f, type, level, 0, 0, some p⟩) := by
  cases hf : t.findProcedure? ⟨f, level, some p⟩ with
  | some q =>
      rw [declareProcedure_of_some hf] at h
      cases h
  | none => exact declareProcedure_of_none hf type

theorem isDuplicate_declareVariable_eq_false {x type : Text} {p : ProcId} {kind : VarKind}
    {level : Nat} (h : (t.declareVariable x p kind type level).1.isDuplicate = false) :
    t.declareVariable x p kind type level = (.new t.variableRows.size,
      t.pushVariable ⟨x, p, kind, type, level, t.variableRows.size⟩) := by
  cases hf : t.variableIndex[(⟨x, p, kind, level⟩ : VarKey)]? with
  | some i =>
      rw [declareVariable_of_some hf] at h
      cases h
  | none => exact declareVariable_of_none hf type

/-- The table with a new function and the slot for its result at its end. -/
def pushFunction (t : SymbolTable) (f type : Text) (level : Nat) (owner : ProcId) : SymbolTable :=
  (t.pushProcedure ⟨f, type, level, 0, 0, some owner⟩).pushVariable
    ⟨f, ⟨t.procedureRows.size⟩, .localVar, type, level, t.variableRows.size⟩

/-- A new function has no parameter yet. -/
theorem WellFormed.variableIndex_pushFunction (h : t.WellFormed) (f type p : Text)
    (level : Nat) (owner : ProcId) : (t.pushFunction f type level owner).variableIndex[
      (⟨p, ⟨t.procedureRows.size⟩, .parameter, level⟩ : VarKey)]? = none := by
  rw [pushFunction, variableIndex_pushVariable, if_neg (by simp [Variable.key])]
  exact h.variableIndex_eq_none t.key?_size

/-- The range of the last procedure is recorded with it. -/
theorem toList_setParameterRange (t : SymbolTable) (p : Procedure) (first last : Nat) :
    ((t.pushProcedure p).setParameterRange ⟨t.procedureRows.size⟩ first last).procedureRows.toList =
      t.procedureRows.toList ++ [{ p with firstParameter := first, lastParameter := last }] := by
  rw [setParameterRange, pushProcedure, Array.toList_modify, Array.toList_push]
  exact List.modifyTailIdx_add (List.modifyHead _) 0 t.procedureRows.toList [p]

end SymbolTable

namespace Session

variable {s t u : Session} {d e : Entries} {past : List Occurrence} {π : List Text}

/-! ## Sessions without faults -/

/-- What was noted stays noted. -/
theorem errors_eq_of_perform {e : Event} (h : s.perform e = .ok t) (ht : t.errors = #[]) :
    s.errors = #[] := by
  cases he : e.isReach with
  | false =>
      obtain ⟨t', ht', hgrows⟩ := s.perform_grows he
      cases h.symm.trans ht'
      obtain ⟨new, hnew, -⟩ := hgrows.errors
      rw [ht] at hnew
      exact Array.toList_eq_nil_iff.mp (List.append_eq_nil_iff.mp hnew.symm).1
  | true =>
      cases e with
      | reach u =>
          obtain ⟨c, -, rfl⟩ := perform_reach h
          exact ht
      | _ => cases he

theorem errors_eq_of_performAll {es : List Event} (h : s.performAll es = .ok t)
    (ht : t.errors = #[]) : s.errors = #[] := by
  induction es generalizing s with
  | nil =>
      cases h
      exact ht
  | cons e es ih =>
      obtain ⟨u, hu, h⟩ := performAll_cons_eq_ok.mp h
      exact errors_eq_of_perform hu (ih h)

theorem eq_false_of_noteIf {b : Bool} {f : ScopeFault} (h : (s.noteIf b f).errors = #[]) :
    b = false := by
  cases b with
  | false => rfl
  | true => simp [noteIf, note] at h

/-! ## Declarations -/

/-- A session adds some entries to the symbol table. -/
structure Adds (s t : Session) (e : Entries) : Prop where
  procedureRows : t.symbols.procedureRows.toList = s.symbols.procedureRows.toList ++ e.procedureRows
  variableRows : t.symbols.variableRows.toList = s.symbols.variableRows.toList ++ e.variableRows

/-- A session adds some entries and is back in the scope where it was. -/
structure Declares (s t : Session) (e : Entries) : Prop extends s.Adds t e where
  scope : t.scope = s.scope
  outer : t.outer = s.outer

theorem Adds.size_procedureRows (h : s.Adds t e) :
    t.symbols.procedureRows.size = s.symbols.procedureRows.size + e.procedureRows.length := by
  simpa using congrArg List.length h.procedureRows

theorem Adds.size_variableRows (h : s.Adds t e) :
    t.symbols.variableRows.size = s.symbols.variableRows.size + e.variableRows.length := by
  simpa using congrArg List.length h.variableRows

theorem Adds.trans (h : s.Adds t d) (h' : t.Adds u e) : s.Adds u (d ++ e) where
  procedureRows := by
    rw [h'.procedureRows, h.procedureRows, List.append_assoc, Entries.procedureRows_append]
  variableRows := by
    rw [h'.variableRows, h.variableRows, List.append_assoc, Entries.variableRows_append]

theorem Declares.refl (s : Session) : s.Declares s ∅ := ⟨⟨by simp, by simp⟩, rfl, rfl⟩

theorem Declares.trans (h : s.Declares t d) (h' : t.Declares u e) : s.Declares u (d ++ e) :=
  ⟨h.toAdds.trans h'.toAdds, h'.scope.trans h.scope, h'.outer.trans h.outer⟩

theorem noteIf_declares (s : Session) (b : Bool) (f : ScopeFault) :
    s.Declares (s.noteIf b f) ∅ := by
  unfold noteIf
  split <;> exact ⟨⟨by simp [note], by simp [note]⟩, rfl, rfl⟩

/-- Uses add nothing. -/
theorem declares_of_isMention {es : List Event} (hes : es.all Event.isMention = true)
    (h : s.performAll es = .ok t) : s.Declares t ∅ := by
  induction es generalizing s with
  | nil =>
      cases h
      exact .refl _
  | cons e es ih =>
      rw [List.all_cons, Bool.and_eq_true] at hes
      obtain ⟨u, hu, h⟩ := performAll_cons_eq_ok.mp h
      have hstep : s.Declares u ∅ := by
        cases e with
        | use x | call x =>
            cases hu
            exact s.noteIf_declares _ _
        | _ => cases hes.1
      exact hstep.trans (ih hes.2 h)

theorem declares_declare {x : Text} (h : (s.declare x).errors = #[]) :
    s.Declares (s.declare x)
      ⟨[], [⟨x, s.scope.procedure, .localVar, integerType, s.scope.level,
        s.symbols.variableRows.size⟩]⟩ := by
  rw [declare_eq] at h ⊢
  have hnew := SymbolTable.isDuplicate_declareVariable_eq_false (eq_false_of_noteIf h)
  rw [hnew]
  exact ⟨⟨by simp [noteIf, Declared.isDuplicate, SymbolTable.pushVariable],
    by simp [noteIf, Declared.isDuplicate, SymbolTable.pushVariable]⟩, rfl, rfl⟩

/-- A function that was not declared before comes to the end of the table, and so does its slot:
nothing in the table belongs to it yet. -/
theorem enter_eq {f r : Text} (hwf : s.symbols.WellFormed) (h : (s.enter f r).errors = #[]) :
    s.enter f r = { s with
      symbols := s.symbols.pushFunction f r (s.scope.level + 1) s.scope.procedure
      scope := ⟨⟨s.symbols.procedureRows.size⟩, s.scope.level + 1, true⟩
      outer := s.scope :: s.outer } := by
  have hnew := SymbolTable.isDuplicate_declareProcedure_eq_false (eq_false_of_noteIf h)
  have hslot : (s.symbols.pushProcedure ⟨f, r, s.scope.level + 1, 0, 0,
      some s.scope.procedure⟩).variableIndex[(⟨f, ⟨s.symbols.procedureRows.size⟩, .localVar,
        s.scope.level + 1⟩ : VarKey)]? = none :=
    hwf.variableIndex_eq_none s.symbols.key?_size
  simp only [enter, hnew, Declared.entry, SymbolTable.declareVariable_of_none hslot]
  rfl

theorem adds_header {f r : Text} (hwf : s.symbols.WellFormed) (h : (s.enter f r).errors = #[])
    (p : Text) : s.Adds ((s.enter f r).parameter (some p))
      (.ofHeader s.scope.procedure s.scope.level s.symbols.procedureRows.size
        s.symbols.variableRows.size r f p) := by
  have hparameter := hwf.variableIndex_pushFunction f r p (s.scope.level + 1) s.scope.procedure
  rw [enter_eq hwf h]
  simp only [parameter, SymbolTable.declareVariable_of_none hparameter, if_true]
  constructor
  · refine (SymbolTable.toList_setParameterRange ..).trans ?_
    simp [Entries.ofHeader, SymbolTable.variableCount, SymbolTable.pushFunction,
      SymbolTable.pushVariable, SymbolTable.pushProcedure]
  · simp [Entries.ofHeader, SymbolTable.setParameterRange, SymbolTable.pushFunction,
      SymbolTable.pushVariable, SymbolTable.pushProcedure]

theorem Adds.leave (h : s.Adds t e) (ht : t.outer = s.scope :: s.outer) :
    s.Declares t.leave e := by
  rw [Session.leave, ht]
  exact ⟨⟨h.procedureRows, h.variableRows⟩, rfl, rfl⟩

end Session

/-! ## Declarations of a program -/

namespace Syntax

open Session (performAll_cons_eq_ok performAll_append_eq_ok errors_eq_of_performAll)

mutual

/-- Following what is told of a declaration without noting a fault, a session adds the entries of
the declaration. -/
theorem Declaration.declares_entries (d : Declaration) {s t : Session}
    {past : List Occurrence} {π : List Text} (hm : s.Mirrors past π)
    (h : s.performAll d.events = .ok t) (ht : t.errors = #[]) :
    s.Declares t (d.entries s.scope.procedure s.scope.level s.symbols.procedureRows.size
      s.symbols.variableRows.size) := by
  match d with
  | .variable x =>
      obtain ⟨u, hu, hrest⟩ := performAll_cons_eq_ok.mp h
      cases hu
      have hdeclare := Session.declares_declare (errors_eq_of_performAll hrest ht)
      have hmention : [Event.use x].all Event.isMention = true := rfl
      have huse := Session.declares_of_isMention hmention hrest
      exact hdeclare.trans huse
  | .function r f p ds ss =>
      obtain ⟨s₁, h₁, hrest₁⟩ := performAll_cons_eq_ok.mp h
      obtain ⟨s₂, h₂, hrest₂⟩ := performAll_cons_eq_ok.mp hrest₁
      obtain ⟨s₃, h₃, hrest₃⟩ := performAll_append_eq_ok.mp hrest₂
      obtain ⟨s₄, h₄, hrest₄⟩ := performAll_append_eq_ok.mp hrest₃
      have hm₂ := ((hm.perform h₁).mirrors.perform h₂).mirrors
      have hclean₁ := errors_eq_of_performAll hrest₁ ht
      cases h₁
      cases h₂
      cases hrest₄
      have hheader := Session.adds_header hm.records.wellFormed hclean₁ p
      have henter := Session.enter_eq hm.records.wellFormed hclean₁
      have hds := Declarations.declares_entries ds hm₂ h₃ (errors_eq_of_performAll hrest₃ ht)
      have hss := Session.declares_of_isMention ss.isMention_events h₄
      have hscope : ((s.enter f r).parameter (some p)).scope =
          ⟨⟨s.symbols.procedureRows.size⟩, s.scope.level + 1, true⟩ := congrArg Session.scope henter
      have houter : ((s.enter f r).parameter (some p)).outer = s.scope :: s.outer :=
        congrArg Session.outer henter
      rw [hscope, hheader.size_procedureRows, hheader.size_variableRows] at hds
      have hbody := hds.trans hss
      rw [Entries.append_empty] at hbody
      exact (hheader.trans hbody.toAdds).leave (hbody.outer.trans houter)

theorem Declarations.declares_entries (ds : Declarations) {s t : Session}
    {past : List Occurrence} {π : List Text} (hm : s.Mirrors past π)
    (h : s.performAll ds.events = .ok t) (ht : t.errors = #[]) :
    s.Declares t (ds.entries s.scope.procedure s.scope.level s.symbols.procedureRows.size
      s.symbols.variableRows.size) := by
  match ds with
  | .none =>
      cases h
      exact .refl _
  | .last d => exact Declaration.declares_entries d hm h ht
  | .skip ds => exact Declarations.declares_entries ds hm h ht
  | .more d ds =>
      obtain ⟨u, hu, hrest⟩ := performAll_append_eq_ok.mp h
      have hd := Declaration.declares_entries d hm hu (errors_eq_of_performAll hrest ht)
      have hds := Declarations.declares_entries ds (hm.performAll hu).mirrors hrest ht
      rw [hd.scope, hd.size_procedureRows, hd.size_variableRows] at hds
      exact hd.trans hds

end

/-- Following what is told of a program without noting a fault, a session comes to hold the entries
of the program behind that of the main procedure. -/
theorem Program.adds_entries (p : Program) {source : Text} {t : Session}
    (h : (Session.start source).performAll p.events = .ok t) (ht : t.errors = #[]) :
    (Session.start source).Adds t p.entries := by
  obtain ⟨u, hu, hrest⟩ := performAll_append_eq_ok.mp h
  have hds := p.declarations.declares_entries (Session.start_mirrors source) hu
    (errors_eq_of_performAll hrest ht)
  have hss := Session.declares_of_isMention p.statements.isMention_events hrest
  have hall := hds.trans hss
  rw [Entries.append_empty] at hall
  exact hall.toAdds

end Syntax

/-! ## Tables of a program -/

/-- Variables know their positions and are on the levels of their owners; functions are one level
below the procedures around them and know the positions of their parameters. -/
structure SymbolTable.Placed (t : SymbolTable) : Prop where
  variableRows : ∀ (i : Nat) (v : Variable), t.variableRows[i]? = some v →
    v.index = i ∧ ∃ q, t.procedure? v.owner = some q ∧ q.level = v.level
  procedureRows : ∀ i q, t.procedure? ⟨i + 1⟩ = some q →
    (∃ r m, q.parent = some r ∧ r.index < i + 1 ∧ t.procedure? r = some m ∧
      q.level = m.level + 1) ∧
    q.lastParameter = q.firstParameter + 1 ∧
    ∃ w, t.variableRows[q.firstParameter]? = some w ∧ w.kind = .parameter ∧ w.owner = ⟨i + 1⟩

namespace Outcome

variable {ts : List Token} {source : Text} {o : Outcome}

theorem exists_program_of_errors_eq_nil (h : ofTokens ts source = .ok o) (ho : o.errors = []) :
    ∃ p : Syntax.Program, p.Spells (Token.significant ts) := by
  have hfaults := grammarFaults_ofTokens h
  rw [ho] at hfaults
  exact Syntax.exists_program (Grammar.fault?_eventsOf_iff.mp hfaults.symm)

/-- The rows of the tables of a program without faults. -/
theorem rows_eq_entries (h : ofTokens ts source = .ok o) (ho : o.errors = [])
    {p : Syntax.Program} (hp : p.Spells (Token.significant ts)) :
    o.symbols.procedureRows.toList = SymbolTable.mainProcedure :: p.entries.procedureRows ∧
      o.symbols.variableRows.toList = p.entries.variableRows := by
  obtain ⟨s, hs, rfl⟩ := ofTokens_eq_ok.mp h
  obtain ⟨t, ht, hagrees⟩ := Session.Agrees.performAll ⟨rfl, rfl, rfl, rfl⟩ hs
  have hclean : t.errors = #[] := by
    have hnil : s.errors.toList = [] := ho
    have hfaults := hagrees.faults
    rw [hnil, List.map_nil] at hfaults
    exact Array.toList_eq_nil_iff.mp (List.map_eq_nil_iff.mp hfaults)
  rw [Grammar.told_eventsOf, Grammar.told_program hp] at ht
  have hadds := p.adds_entries ht hclean
  rw [← hagrees.symbols]
  exact ⟨hadds.procedureRows, hadds.variableRows⟩

/-- A program without scope faults is analysed without faults. -/
theorem errors_eq_nil_of_spells (h : ofTokens ts source = .ok o) {p : Syntax.Program}
    (hp : p.Spells (Token.significant ts)) (hf : p.scopeFaults = []) : o.errors = [] := by
  have hgrammar := grammarFaults_ofTokens h
  rw [Grammar.fault?_eventsOf_of_spells hp] at hgrammar
  obtain ⟨s, hs, rfl⟩ := ofTokens_eq_ok.mp h
  have hfaults := ((Session.start_mirrors source).performAll hs).faults
  rw [(p.alike_eventsOf hp).scopeFaults_eq] at hfaults
  have hmap : s.errors.toList.map (·.fault) = p.scopeFaults.map .scope := by
    rw [map_fault_eq hgrammar, hfaults]
    rfl
  rw [hf] at hmap
  exact List.map_eq_nil_iff.mp hmap

theorem placed_symbols (h : ofTokens ts source = .ok o) (ho : o.errors = []) :
    o.symbols.Placed := by
  have hwf := wellFormed_symbols h
  obtain ⟨p, hp⟩ := exists_program_of_errors_eq_nil h ho
  obtain ⟨hprocedures, hvariables⟩ := rows_eq_entries h ho hp
  refine ⟨fun i v hv => ⟨hwf.index_eq i v hv, ?_⟩, fun i q hq => ⟨?_, ?_⟩⟩
  · obtain ⟨k, hk, hl⟩ := hwf.owned v (Array.mem_of_getElem? hv)
    obtain ⟨q, hq, rfl⟩ := Option.map_eq_some_iff.mp hk
    exact ⟨q, hq, hl⟩
  · have hkey : o.symbols.key? ⟨i + 1⟩ = some q.key := by rw [SymbolTable.key?, hq]; rfl
    obtain ⟨r, k, hr, hk, hlt, hl⟩ := hwf.inside _ _ hkey (by simp [SymbolTable.root])
    obtain ⟨m, hm, rfl⟩ := Option.map_eq_some_iff.mp hk
    exact ⟨r, m, hr, hlt, hm, hl⟩
  · -- the main procedure comes before the entries of the program
    have hrow : p.entries.procedureRows[i]? = some q := by
      rw [SymbolTable.procedure?, ← Array.getElem?_toList, hprocedures] at hq
      exact hq
    obtain ⟨j, w, hw, hkind, howner, hfirst, hlast⟩ :=
      p.declarations.ranged_entries SymbolTable.root 0 1 0 i q hrow
    rw [Nat.zero_add] at hfirst hlast
    refine ⟨by rw [hlast, hfirst], w, ?_, hkind, by rw [howner, Nat.add_comm]⟩
    rw [hfirst, ← Array.getElem?_toList, hvariables]
    exact hw

/-- A program that is analysed without faults is grammatical. Its tables hold the main procedure and
then the entries of its syntax tree, in the order of the source text and without any others. -/
theorem tables_eq_entries (h : ofTokens ts source = .ok o) (ho : o.errors = []) :
    (∃ p : Syntax.Program, p.Spells (Token.significant ts)) ∧
      (∀ p : Syntax.Program, p.Spells (Token.significant ts) →
        o.symbols.procedureRows.toList = SymbolTable.mainProcedure :: p.entries.procedureRows ∧
          o.symbols.variableRows.toList = p.entries.variableRows) ∧
      o.symbols.Placed :=
  ⟨exists_program_of_errors_eq_nil h ho, fun _ hp => rows_eq_entries h ho hp,
    placed_symbols h ho⟩

/-- A function behind a variable, with a variable of its own. -/
theorem tables_eq_entries_nested :
    ∃ o, ofTokens (Lexed.ofSource
        "begin integer x;integer function f(a);begin integer b;f:=a end;x:=f(x) end".toList).tokens
        "begin integer x;integer function f(a);begin integer b;f:=a end;x:=f(x) end".toList =
          .ok o ∧ o.errors = [] ∧
      o.symbols.procedureRows.toList = [⟨"main".toList, "void".toList, 0, 0, 0, none⟩,
        ⟨"f".toList, "integer".toList, 1, 2, 3, some ⟨0⟩⟩] ∧
      o.symbols.variableRows.toList = [⟨"x".toList, ⟨0⟩, .localVar, "integer".toList, 0, 0⟩,
        ⟨"f".toList, ⟨1⟩, .localVar, "integer".toList, 1, 1⟩,
        ⟨"a".toList, ⟨1⟩, .parameter, "integer".toList, 1, 2⟩,
        ⟨"b".toList, ⟨1⟩, .localVar, "integer".toList, 1, 3⟩] := by
  generalize hsource :
    "begin integer x;integer function f(a);begin integer b;f:=a end;x:=f(x) end".toList = source
  have hclean : (Lexed.ofSource source).errors = [] := by
    subst hsource
    decide +kernel
  obtain ⟨o, ho⟩ := exists_ofTokens_ofSource hclean
  have hts : Token.significant (Lexed.ofSource source).tokens =
      ⟨"begin".toList, .beginWord, 1⟩ ::
        (([⟨"integer".toList, .integerWord, 1⟩, ⟨"x".toList, .identifier, 1⟩] ++
            ⟨";".toList, .semicolon, 1⟩ ::
              ((⟨"integer".toList, .integerWord, 1⟩ :: ⟨"function".toList, .functionWord, 1⟩ ::
                ⟨"f".toList, .identifier, 1⟩ :: ⟨"(".toList, .leftParen, 1⟩ ::
                ⟨"a".toList, .identifier, 1⟩ :: ⟨")".toList, .rightParen, 1⟩ ::
                ⟨";".toList, .semicolon, 1⟩ :: ⟨"begin".toList, .beginWord, 1⟩ ::
                  (([⟨"integer".toList, .integerWord, 1⟩, ⟨"b".toList, .identifier, 1⟩] ++
                      ⟨";".toList, .semicolon, 1⟩ :: []) ++
                    ((⟨"f".toList, .identifier, 1⟩ :: ⟨":=".toList, .assign, 1⟩ ::
                        [⟨"a".toList, .identifier, 1⟩]) ++ [⟨"end".toList, .endWord, 1⟩]))) ++
                ⟨";".toList, .semicolon, 1⟩ :: [])) ++
          ((⟨"x".toList, .identifier, 1⟩ :: ⟨":=".toList, .assign, 1⟩ ::
              ⟨"f".toList, .identifier, 1⟩ :: ⟨"(".toList, .leftParen, 1⟩ ::
                ([⟨"x".toList, .identifier, 1⟩] ++ [⟨")".toList, .rightParen, 1⟩])) ++
            [⟨"end".toList, .endWord, 1⟩])) := by
    subst hsource
    decide +kernel
  let p : Syntax.Program :=
    ⟨.more (.variable "x".toList) (.more (.function "integer".toList "f".toList "a".toList
        (.more (.variable "b".toList) .none)
        (.last (.assignment "f".toList (.term (.factor (.name "a".toList)))))) .none),
      .last (.assignment "x".toList
        (.term (.factor (.call "f".toList (.term (.factor (.name "x".toList)))))))⟩
  have hp : p.Spells (Token.significant (Lexed.ofSource source).tokens) := by
    rw [hts]
    refine .block rfl (.more (.variable rfl ⟨rfl, rfl⟩) rfl (.more ?_ rfl .none)) (.last ?_) rfl
    · exact .function rfl rfl rfl ⟨rfl, rfl⟩ rfl ⟨rfl, rfl⟩ rfl rfl rfl
        (.more (.variable rfl ⟨rfl, rfl⟩) rfl .none)
        (.last (.assignment ⟨rfl, rfl⟩ rfl (.term (.factor (.name ⟨rfl, rfl⟩))))) rfl
    · exact .assignment ⟨rfl, rfl⟩ rfl
        (.term (.factor (.call ⟨rfl, rfl⟩ rfl (.term (.factor (.name ⟨rfl, rfl⟩))) rfl)))
  have hnil := errors_eq_nil_of_spells ho hp (by decide +kernel)
  obtain ⟨hprocedures, hvariables⟩ := (tables_eq_entries ho hnil).2.1 p hp
  exact ⟨o, ho, hnil, hprocedures.trans rfl, hvariables.trans rfl⟩

end Outcome

end BlockLang
