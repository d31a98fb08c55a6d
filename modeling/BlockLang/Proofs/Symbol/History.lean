import BlockLang.Proofs.Symbol.Rows

/-!
# Histories of symbol tables

A symbol table begins with the main procedure and changes by calls. Each call is given a procedure:
the main one, or one that an earlier answer told of. Names, types and levels may be any, so that the
nesting that a parse keeps to is not assumed here. The answers and the rows are always those of a
plain table, and entries stay what and where they are.
-/

namespace BlockLang

/-- A call that can change a symbol table. -/
inductive TableCall where
  | addProcedure (name returnType : Text) (level : Nat) (parent : ProcId)
  | addVariable (name : Text) (owner : ProcId) (kind : VarKind) (type : Text) (level : Nat)
  | setRange (p : ProcId) (first last : Nat)
  deriving DecidableEq, Repr

inductive TableAnswer where
  | ofProcedure (d : Declared ProcId)
  | ofVariable (d : Declared Nat)
  | recorded
  deriving DecidableEq, Repr

/-- The procedure that a call is given. -/
def TableCall.given : TableCall → ProcId
  | addProcedure _ _ _ p | addVariable _ p _ _ _ | setRange p _ _ => p

/-- The procedure whose range a call records. -/
def TableCall.ranged? : TableCall → Option ProcId
  | setRange p _ _ => some p
  | addProcedure _ _ _ _ | addVariable _ _ _ _ _ => none

/-- The procedure that an answer tells of. -/
def TableAnswer.procedure? : TableAnswer → Option ProcId
  | ofProcedure d => some d.entry
  | ofVariable _ | recorded => none

def TableAnswer.isDuplicate : TableAnswer → Bool
  | ofProcedure d => d.isDuplicate
  | ofVariable d => d.isDuplicate
  | recorded => false

namespace Rows

def perform (r : Rows) : TableCall → TableAnswer × Rows
  | .addProcedure x type l p => (r.declareProcedure x type l p).map .ofProcedure id
  | .addVariable x p kind type l => (r.declareVariable x p kind type l).map .ofVariable id
  | .setRange p first last => (.recorded, r.setParameterRange p first last)

def performAll (r : Rows) : List TableCall → List TableAnswer × Rows
  | [] => ([], r)
  | c :: cs =>
    let later := performAll (r.perform c).2 cs
    ((r.perform c).1 :: later.1, later.2)

end Rows

namespace SymbolTable

def perform (t : SymbolTable) : TableCall → TableAnswer × SymbolTable
  | .addProcedure x type l p => (t.declareProcedure x type l p).map .ofProcedure id
  | .addVariable x p kind type l => (t.declareVariable x p kind type l).map .ofVariable id
  | .setRange p first last => (.recorded, t.setParameterRange p first last)

def performAll (t : SymbolTable) : List TableCall → List TableAnswer × SymbolTable
  | [] => ([], t)
  | c :: cs =>
    let later := performAll (t.perform c).2 cs
    ((t.perform c).1 :: later.1, later.2)

/-- Every call is given a procedure that is known from the start or from an earlier answer. -/
def Permitted (t : SymbolTable) (known : List ProcId) : List TableCall → Prop
  | [] => True
  | c :: cs => c.given ∈ known ∧
      Permitted (t.perform c).2 (known ++ (t.perform c).1.procedure?.toList) cs

instance decidablePermitted (t : SymbolTable) (known : List ProcId) :
    (cs : List TableCall) → Decidable (t.Permitted known cs)
  | [] => isTrue trivial
  | c :: cs =>
    have := decidablePermitted (t.perform c).2 (known ++ (t.perform c).1.procedure?.toList) cs
    inferInstanceAs (Decidable (_ ∧ _))

variable {t u w : SymbolTable} {c : TableCall} {a : TableAnswer} {cs ds : List TableCall}
  {known : List ProcId} {p q : ProcId} {n : Nat}

/-! ## Calls -/

/-- All that a call can do, with its answer. -/
inductive Change (t : SymbolTable) : TableCall → TableAnswer → SymbolTable → Prop
  | oldProcedure {x : Text} {l : Nat} {p q : ProcId} (type : Text)
      (h : t.findProcedure? ⟨x, l, some p⟩ = some q) :
      Change t (.addProcedure x type l p) (.ofProcedure (.duplicate q)) t
  | newProcedure {x : Text} {l : Nat} {p : ProcId} (type : Text)
      (h : t.findProcedure? ⟨x, l, some p⟩ = none) :
      Change t (.addProcedure x type l p) (.ofProcedure (.new ⟨t.procedureRows.size⟩))
        (t.pushProcedure ⟨x, type, l, 0, 0, some p⟩)
  | oldVariable {x : Text} {p : ProcId} {kind : VarKind} {l i : Nat} (type : Text)
      (h : t.variableIndex[(⟨x, p, kind, l⟩ : VarKey)]? = some i) :
      Change t (.addVariable x p kind type l) (.ofVariable (.duplicate i)) t
  | newVariable {x : Text} {p : ProcId} {kind : VarKind} {l : Nat} (type : Text)
      (h : t.variableIndex[(⟨x, p, kind, l⟩ : VarKey)]? = none) :
      Change t (.addVariable x p kind type l) (.ofVariable (.new t.variableRows.size))
        (t.pushVariable ⟨x, p, kind, type, l, t.variableRows.size⟩)
  | setRange (p : ProcId) (first last : Nat) :
      Change t (.setRange p first last) .recorded (t.setParameterRange p first last)

theorem change_perform (t : SymbolTable) (c : TableCall) :
    t.Change c (t.perform c).1 (t.perform c).2 := by
  cases c with
  | addProcedure x type l p =>
      cases h : t.findProcedure? ⟨x, l, some p⟩ with
      | some q =>
          rw [perform, declareProcedure_of_some h]
          exact .oldProcedure type h
      | none =>
          rw [perform, declareProcedure_of_none h]
          exact .newProcedure type h
  | addVariable x p kind type l =>
      cases h : t.variableIndex[(⟨x, p, kind, l⟩ : VarKey)]? with
      | some i =>
          rw [perform, declareVariable_of_some h]
          exact .oldVariable type h
      | none =>
          rw [perform, declareVariable_of_none h]
          exact .newVariable type h
  | setRange p first last => exact .setRange p first last

theorem Change.eq_of_isDuplicate (h : t.Change c a u) (ha : a.isDuplicate = true) : u = t := by
  cases h with
  | oldProcedure | oldVariable => rfl
  | newProcedure | newVariable | setRange => cases ha

/-! ## Plain tables -/

theorem Change.indexed (h : t.Change c a u) (ht : t.Indexed) : u.Indexed := by
  cases h with
  | oldProcedure | oldVariable => exact ht
  | newProcedure type hnone => exact ht.pushProcedure hnone
  | newVariable type hnone => exact ht.pushVariable hnone rfl
  | setRange p first last => exact ht.setParameterRange p first last

/-- A plain table gives the same answer and comes to the same rows. -/
theorem Change.rows_perform (h : t.Change c a u) (ht : t.Indexed) :
    t.rows.perform c = (a, u.rows) := by
  cases h with
  | oldProcedure type hsome | newProcedure type hsome =>
      rw [ht.findProcedure?_eq] at hsome
      simp only [Rows.perform, Rows.declareProcedure, hsome]
      rfl
  | oldVariable type hsome | newVariable type hsome =>
      rw [ht.variableIndex_eq] at hsome
      simp only [Rows.perform, Rows.declareVariable, hsome]
      rfl
  | setRange => rfl

/-! ## Ways outward -/

/-- Procedures are declared after those that enclose them. -/
def ParentsEarlier (t : SymbolTable) : Prop :=
  ∀ q k p, t.key? q = some k → k.parent = some p → p.index < q.index

theorem Change.parentsEarlier (h : t.Change c a u) (ht : t.ParentsEarlier)
    (hc : ∃ k, t.key? c.given = some k) : u.ParentsEarlier := by
  cases h with
  | oldProcedure | oldVariable => exact ht
  | @newProcedure x l p type hnone =>
      intro q k o hq hparent
      rw [key?_pushProcedure] at hq
      split at hq
      · rename_i hnew
        cases hq
        cases hparent
        obtain ⟨k, hk⟩ := hc
        rw [hnew]
        exact index_lt_of_key? hk
      · exact ht q k o hq hparent
  | newVariable => exact ht
  | setRange p first last =>
      intro q k o hq hparent
      rw [key?_setParameterRange] at hq
      exact ht q k o hq hparent

theorem exists_key_of_lt (h : p.index < t.procedureRows.size) : ∃ k, t.key? p = some k :=
  ⟨_, key?_of_procedure (Array.getElem?_eq_getElem h)⟩

/-- The way outward from a procedure comes to an end, since it goes up in the table. -/
theorem ParentsEarlier.outward_ancestry (h : t.ParentsEarlier) {k : ProcKey}
    (hp : t.key? p = some k) (hn : p.index < n) :
    t.Outward p (t.ancestry n p) ∧ (t.ancestry n p).length ≤ p.index + 1 := by
  induction n generalizing p k with
  | zero => exact absurd hn (Nat.not_lt_zero _)
  | succ n ih =>
      obtain ⟨r, hr, rfl⟩ := exists_procedure_of_key? hp
      cases hparent : r.parent with
      | none =>
          have hself : t.ancestry (n + 1) p = [p] := by simp [ancestry, hr, hparent]
          rw [hself]
          exact ⟨.last hr hparent, by simp⟩
      | some q =>
          have hlt := h p r.key q hp hparent
          obtain ⟨k, hq⟩ := exists_key_of_lt (Nat.lt_trans hlt (index_lt_of_key? hp))
          obtain ⟨houtward, hlength⟩ := ih hq (by omega)
          rw [WellFormed.ancestry_inside hp hparent]
          refine ⟨.next hr hparent houtward, ?_⟩
          rw [List.length_cons]
          omega

/-! ## Entries -/

/-- The entries of a table are in another one what and where they are, but for the ranges that some
calls record. -/
structure Keeps (cs : List TableCall) (t u : SymbolTable) : Prop where
  variableRows : ∀ (i : Nat) (v : Variable), t.variableRows[i]? = some v →
    u.variableRows[i]? = some v
  procedureRows : ∀ q r, t.procedure? q = some r → ∃ first last,
    u.procedure? q = some { r with firstParameter := first, lastParameter := last }
  ranges : ∀ q r, t.procedure? q = some r → (∀ c ∈ cs, c.ranged? ≠ some q) → u.procedure? q = some r

theorem Keeps.refl (cs : List TableCall) (t : SymbolTable) : Keeps cs t t :=
  ⟨fun _ _ hv => hv, fun _ r hr => ⟨r.firstParameter, r.lastParameter, hr⟩, fun _ _ hr _ => hr⟩

theorem Keeps.trans (h : Keeps cs t u) (k : Keeps ds u w) : Keeps (cs ++ ds) t w where
  variableRows i v hv := k.variableRows i v (h.variableRows i v hv)
  procedureRows q r hr := by
    obtain ⟨first, last, hu⟩ := h.procedureRows q r hr
    obtain ⟨first', last', hw⟩ := k.procedureRows q _ hu
    exact ⟨first', last', hw⟩
  ranges q r hr hcs := by
    simp only [List.mem_append, or_imp, forall_and] at hcs
    exact k.ranges q r (h.ranges q r hr hcs.1) hcs.2

theorem keeps_pushProcedure (cs : List TableCall) (t : SymbolTable) (o : Procedure) :
    Keeps cs t (t.pushProcedure o) := by
  have hkept : ∀ q r, t.procedure? q = some r → (t.pushProcedure o).procedure? q = some r := by
    intro q r hr
    have hlt := (Array.getElem?_eq_some_iff.mp hr).1
    rw [procedure?, pushProcedure, Array.getElem?_push, if_neg (Nat.ne_of_lt hlt)]
    exact hr
  exact ⟨fun _ _ hv => hv, fun q r hr => ⟨_, _, hkept q r hr⟩, fun q r hr _ => hkept q r hr⟩

theorem keeps_pushVariable (cs : List TableCall) (t : SymbolTable) (v : Variable) :
    Keeps cs t (t.pushVariable v) where
  variableRows i w hw := by
    have hlt := (Array.getElem?_eq_some_iff.mp hw).1
    rw [variableRows_pushVariable, if_neg (Nat.ne_of_lt hlt), hw]
  procedureRows q r hr := ⟨_, _, hr⟩
  ranges q r hr _ := hr

theorem keeps_setParameterRange (t : SymbolTable) (p : ProcId) (first last : Nat) :
    Keeps [.setRange p first last] t (t.setParameterRange p first last) where
  variableRows i v hv := hv
  procedureRows q r hr := by
    rw [procedure?, setParameterRange, Array.getElem?_modify]
    split
    · exact ⟨first, last, congrArg (Option.map _) hr⟩
    · exact ⟨_, _, hr⟩
  ranges q r hr hcs := by
    have hne : p ≠ q := by
      rintro rfl
      exact hcs _ (List.mem_singleton.mpr rfl) rfl
    have hindex : p.index ≠ q.index := fun h => hne (by cases p; cases q; cases h; rfl)
    rw [procedure?, setParameterRange, Array.getElem?_modify, if_neg hindex]
    exact hr

theorem Change.keeps (h : t.Change c a u) : Keeps [c] t u := by
  cases h with
  | oldProcedure | oldVariable => exact .refl _ t
  | newProcedure => exact keeps_pushProcedure _ t _
  | newVariable => exact keeps_pushVariable _ t _
  | setRange p first last => exact keeps_setParameterRange t p first last

theorem keeps_performAll (t : SymbolTable) (cs : List TableCall) :
    Keeps cs t (t.performAll cs).2 := by
  induction cs generalizing t with
  | nil => exact .refl _ t
  | cons c cs ih => exact (t.change_perform c).keeps.trans (ih _)

theorem Keeps.exists_key (h : Keeps cs t u) {k : ProcKey} (hp : t.key? p = some k) :
    ∃ k, u.key? p = some k := by
  obtain ⟨r, hr, -⟩ := exists_procedure_of_key? hp
  obtain ⟨first, last, hu⟩ := h.procedureRows p r hr
  exact ⟨_, key?_of_procedure hu⟩

/-! ## Histories -/

/-- A table that its indexes describe, with the procedures that are known of it. -/
structure Standing (t : SymbolTable) (known : List ProcId) : Prop where
  indexed : t.Indexed
  parentsEarlier : t.ParentsEarlier
  exists_key : ∀ p ∈ known, ∃ k, t.key? p = some k

theorem standing_initial : initial.Standing [root] where
  indexed := initial_wellFormed.toIndexed
  parentsEarlier := by
    intro q k p hq hparent
    obtain ⟨m, -, hlt, -⟩ := initial_wellFormed.of_parent hq hparent
    exact hlt
  exists_key := by
    intro p hp
    obtain ⟨m, hm, -⟩ := initial_wellFormed.main
    exact ⟨m, List.mem_singleton.mp hp ▸ hm⟩

/-- An answer tells of procedures of the table. -/
theorem Change.exists_key (h : t.Change c a u) (ht : t.Indexed) :
    ∀ p ∈ a.procedure?, ∃ k, u.key? p = some k := by
  cases h with
  | @oldProcedure x l o q type hsome =>
      rintro p ⟨rfl⟩
      exact ⟨_, (ht.findProcedure?_iff _ q).mp hsome⟩
  | newProcedure =>
      rintro p ⟨rfl⟩
      exact exists_key_of_lt (by simp [pushProcedure, Declared.entry])
  | oldVariable | newVariable | setRange =>
      intro p hp
      cases hp

theorem Standing.change (h : t.Standing known) (hc : t.Change c a u) (hgiven : c.given ∈ known) :
    u.Standing (known ++ a.procedure?.toList) where
  indexed := hc.indexed h.indexed
  parentsEarlier := hc.parentsEarlier h.parentsEarlier (h.exists_key _ hgiven)
  exists_key p hp := by
    rcases List.mem_append.mp hp with hp | hp
    · obtain ⟨k, hk⟩ := h.exists_key p hp
      exact hc.keeps.exists_key hk
    · exact hc.exists_key h.indexed p (Option.mem_toList.mp hp)

theorem Standing.performAll (h : t.Standing known) (hcs : t.Permitted known cs) :
    (t.performAll cs).2.Standing
        (known ++ (t.performAll cs).1.filterMap TableAnswer.procedure?) ∧
      t.rows.performAll cs = ((t.performAll cs).1, (t.performAll cs).2.rows) := by
  induction cs generalizing t known with
  | nil => exact ⟨by simpa [SymbolTable.performAll] using h, rfl⟩
  | cons c cs ih =>
      obtain ⟨hgiven, hcs⟩ := hcs
      have hchange := t.change_perform c
      obtain ⟨hlater, hrows⟩ := ih (h.change hchange hgiven) hcs
      constructor
      · have htold : (t.performAll (c :: cs)).1.filterMap TableAnswer.procedure? =
            (t.perform c).1.procedure?.toList ++
              ((t.perform c).2.performAll cs).1.filterMap TableAnswer.procedure? := by
          rw [SymbolTable.performAll, List.filterMap_cons]
          cases (t.perform c).1.procedure? <;> rfl
        rwa [htold, ← List.append_assoc]
      · simp only [Rows.performAll, hchange.rows_perform h.indexed, hrows]
        rfl

theorem performAll_append (t : SymbolTable) (cs ds : List TableCall) :
    (t.performAll (cs ++ ds)).2 = ((t.performAll cs).2.performAll ds).2 := by
  induction cs generalizing t with
  | nil => rfl
  | cons c cs ih => exact ih _

/-- A symbol table answers calls and lookups as a plain table does that searches its rows, whatever
the names, types and levels are. Lookups along the procedures around a known one come to an end. A
duplicate leaves the table as it is, and entries stay what and where they are, but for the ranges
that later calls record. -/
theorem performAll_refines_rows {cs : List TableCall} (h : initial.Permitted [root] cs) :
    let answers := (initial.performAll cs).1
    let t := (initial.performAll cs).2
    Rows.initial.performAll cs = (answers, t.rows) ∧
    (∀ c, (t.perform c).1.isDuplicate = true → (t.perform c).2 = t) ∧
    (∀ x p kind level,
      t.findVariable? ⟨x, p, kind, level⟩ = t.rows.variableAt? x p kind level) ∧
    (∀ p ∈ root :: answers.filterMap TableAnswer.procedure?, ∃ ps,
      t.Outward p ps ∧ ps.length ≤ p.index + 1 ∧
      (∀ x level, t.resolveVariable? x p level = t.rows.variableAlong? x ps level) ∧
      ∀ x, t.resolveProcedure? x p = t.rows.procedureAlong? x ps) ∧
    ∀ before after, cs = before ++ after → Keeps after (initial.performAll before).2 t := by
  intro answers t
  obtain ⟨hstanding, hrows⟩ := standing_initial.performAll h
  refine ⟨hrows, ?_, ?_, ?_, ?_⟩
  · intro c hc
    exact (t.change_perform c).eq_of_isDuplicate hc
  · intro x p kind level
    exact hstanding.indexed.findVariable?_eq x p kind level
  · intro p hp
    obtain ⟨k, hk⟩ := hstanding.exists_key p hp
    obtain ⟨houtward, hlength⟩ := hstanding.parentsEarlier.outward_ancestry hk (Nat.lt_succ_self _)
    exact ⟨_, houtward, hlength, fun x level => hstanding.indexed.firstVariable?_eq x _ level,
      fun x => hstanding.indexed.resolveProcedure?_eq x p⟩
  · rintro before after rfl
    have hsplit : t = ((initial.performAll before).2.performAll after).2 :=
      performAll_append initial before after
    rw [hsplit]
    exact keeps_performAll _ after

/-- Calls with levels that fit no nesting. -/
def unnestedCalls : List TableCall :=
  [.addProcedure "f".toList "integer".toList 5 root,
    .addVariable "x".toList root .localVar "integer".toList 7, .setRange ⟨1⟩ 0 1,
    .addProcedure "f".toList "void".toList 5 root, .addProcedure "g".toList "void".toList 1 ⟨1⟩]

/-- A variable is found where the levels of a lookup happen to meet that of its declaration. -/
theorem performAll_refines_rows_unnested :
    let t := (initial.performAll unnestedCalls).2
    initial.Permitted [root] unnestedCalls ∧
      Rows.initial.performAll unnestedCalls = ((initial.performAll unnestedCalls).1, t.rows) ∧
      (initial.performAll unnestedCalls).1.map (·.isDuplicate) =
        [false, false, false, true, false] ∧
      ∃ ps, t.Outward ⟨2⟩ ps ∧
        t.resolveVariable? "x".toList ⟨2⟩ 9 = t.rows.variableAlong? "x".toList ps 9 ∧
        (t.resolveVariable? "x".toList ⟨2⟩ 9).isSome ∧
        t.resolveVariable? "x".toList ⟨2⟩ 2 = none := by
  intro t
  have hcalls : initial.Permitted [root] unnestedCalls := by decide +kernel
  obtain ⟨hrows, -, -, hlookup, -⟩ := performAll_refines_rows hcalls
  have hknown : (⟨2⟩ : ProcId) ∈ root :: (initial.performAll unnestedCalls).1.filterMap
      TableAnswer.procedure? := by decide +kernel
  obtain ⟨ps, houtward, -, hvariable, -⟩ := hlookup ⟨2⟩ hknown
  exact ⟨hcalls, hrows, by decide +kernel, ps, houtward, hvariable _ _, by decide +kernel,
    by decide +kernel⟩

end SymbolTable

end BlockLang
