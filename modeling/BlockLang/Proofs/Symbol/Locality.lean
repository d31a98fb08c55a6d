import BlockLang.Proofs.Symbol.History

/-!
# What a declaration changes

A declaration changes no lookups but those that meet the declared entry on their way outward, on the
level on which it was declared. A lookup that meets it has it as its answer unless something nearer
has the name. Nothing is assumed about the levels.
-/

namespace BlockLang.SymbolTable

variable {t u : SymbolTable} {p q o : ProcId} {ps inner outer : List ProcId} {x : Text}
  {v w : Variable} {f : Procedure} {l n : Nat}

/-! ## Ways outward -/

theorem Outward.ancestry_eq (h : t.Outward p ps) (hn : ps.length ≤ n) : t.ancestry n p = ps := by
  induction h generalizing n with
  | last hp hparent =>
      obtain ⟨n, rfl⟩ : ∃ m, n = m + 1 := ⟨n - 1, by simp at hn; omega⟩
      simp [ancestry, hp, hparent]
  | next hp hparent _ ih =>
      rw [List.length_cons] at hn
      obtain ⟨n, rfl⟩ : ∃ m, n = m + 1 := ⟨n - 1, by omega⟩
      simp [ancestry, hp, hparent, ih (Nat.le_of_succ_le_succ hn)]

theorem Outward.mono (h : t.Outward p ps)
    (htu : ∀ q r, t.procedure? q = some r → u.procedure? q = some r) : u.Outward p ps := by
  induction h with
  | last hp hparent => exact .last (htu _ _ hp) hparent
  | next hp hparent _ ih => exact .next (htu _ _ hp) hparent ih

/-- The way outward goes up in the table, so that it comes to no procedure twice. -/
theorem Outward.goes_up (h : t.Outward p ps) (ht : t.ParentsEarlier) :
    ps.Nodup ∧ ps.length ≤ p.index + 1 ∧ ∀ q ∈ ps, q.index ≤ p.index := by
  induction h with
  | last => simp
  | @next p q r ps hp hparent _ ih =>
      have hlt := ht p r.key q (key?_of_procedure hp) hparent
      obtain ⟨hnodup, hlength, hle⟩ := ih
      refine ⟨List.nodup_cons.mpr ⟨fun hmem => ?_, hnodup⟩, ?_, ?_⟩
      · exact absurd (hle p hmem) (Nat.not_le_of_lt hlt)
      · rw [List.length_cons]
        omega
      · rintro o (_ | ⟨_, ho⟩)
        · exact Nat.le_refl _
        · exact Nat.le_trans (hle o ho) (Nat.le_of_lt hlt)

theorem Outward.exists_procedure (h : t.Outward p ps) (hq : q ∈ ps) :
    ∃ r, t.procedure? q = some r := by
  induction h with
  | last hp => exact ⟨_, List.mem_singleton.mp hq ▸ hp⟩
  | next hp _ _ ih =>
      rcases List.mem_cons.mp hq with rfl | hq
      · exact ⟨_, hp⟩
      · exact ih hq

/-! ## Searches along a way -/

theorem findSome?_eq_of_forall {α β : Type} {f g : α → Option β} {l : List α}
    (h : ∀ a ∈ l, f a = g a) : l.findSome? f = l.findSome? g := by
  induction l with
  | nil => rfl
  | cons a l ih =>
      rw [List.forall_mem_cons] at h
      rw [List.findSome?_cons, List.findSome?_cons, h.1, ih h.2]

theorem firstVariable?_cons (t : SymbolTable) (x : Text) (p : ProcId) (ps : List ProcId) (n : Nat) :
    t.firstVariable? x (p :: ps) n =
      (t.ownVariable? x p n).or (if n = 0 then none else t.firstVariable? x ps (n - 1)) := by
  cases n <;> simp [firstVariable?]

theorem firstVariable?_append (t : SymbolTable) (x : Text) (inner outer : List ProcId) (n : Nat) :
    t.firstVariable? x (inner ++ outer) n = (t.firstVariable? x inner n).or
      (if inner.length ≤ n then t.firstVariable? x outer (n - inner.length) else none) := by
  induction inner generalizing n with
  | nil => simp [firstVariable?]
  | cons p inner ih =>
      rw [List.cons_append, firstVariable?_cons, firstVariable?_cons, Option.or_assoc]
      cases n with
      | zero => simp
      | succ n => simp [ih]

theorem firstVariable?_congr
    (h : ∀ i ≤ n, ∀ p, ps[i]? = some p → u.ownVariable? x p (n - i) = t.ownVariable? x p (n - i)) :
    u.firstVariable? x ps n = t.firstVariable? x ps n := by
  induction ps generalizing n with
  | nil => rfl
  | cons p ps ih =>
      have hp : u.ownVariable? x p n = t.ownVariable? x p n := h 0 (Nat.zero_le _) p rfl
      rw [firstVariable?_cons, firstVariable?_cons, hp]
      cases n with
      | zero => rfl
      | succ n =>
          have hps : u.firstVariable? x ps n = t.firstVariable? x ps n := ih fun i hi q hq => by
            simpa using h (i + 1) (Nat.succ_le_succ hi) q hq
          simp [hps]

namespace Indexed

theorem of_ownVariable? (h : t.Indexed) (hv : t.ownVariable? x p l = some v) :
    v.owner = p ∧ v.level = l := by
  rw [ownVariable?, Option.orElse_eq_orElse, Option.orElse_eq_or, Option.or_eq_some_iff,
    h.findVariable?_eq_some_iff, h.findVariable?_eq_some_iff] at hv
  rcases hv with ⟨-, hk⟩ | ⟨-, -, hk⟩ <;>
    exact ⟨congrArg VarKey.owner hk, congrArg VarKey.level hk⟩

/-- What is found belongs to a procedure on the way and is on the level of the search there. -/
theorem exists_of_firstVariable? (h : t.Indexed) (hv : t.firstVariable? x ps n = some v) :
    ∃ i, i ≤ n ∧ ps[i]? = some v.owner ∧ v.level = n - i := by
  induction ps generalizing n with
  | nil => cases hv
  | cons p ps ih =>
      rw [firstVariable?_cons, Option.or_eq_some_iff] at hv
      rcases hv with hv | ⟨-, hv⟩
      · obtain ⟨howner, hlevel⟩ := h.of_ownVariable? hv
        exact ⟨0, Nat.zero_le _, congrArg some howner.symm, hlevel⟩
      · split at hv
        · cases hv
        · obtain ⟨i, hi, hp, hlevel⟩ := ih hv
          exact ⟨i + 1, by omega, hp, by omega⟩

/-! ## New variables -/

theorem findVariable?_pushVariable (h : t.Indexed) (hv : v.index = t.variableRows.size)
    (k : VarKey) : (t.pushVariable v).findVariable? k =
      if v.key = k then some v else t.findVariable? k := by
  rw [findVariable?, variableIndex_pushVariable]
  split
  · simp [variableRows_pushVariable, hv]
  · rw [findVariable?]
    cases hi : t.variableIndex[k]? with
    | none => rfl
    | some i =>
        obtain ⟨w, hw, -⟩ := (h.variableIndex_iff k i).mp hi
        have hlt := (Array.getElem?_eq_some_iff.mp hw).1
        exact (variableRows_pushVariable t v i).trans (if_neg (Nat.ne_of_lt hlt))

/-- A new variable is found by its name, in its owner and on its level only. -/
theorem ownVariable?_pushVariable_of_not (h : t.Indexed) (hv : v.index = t.variableRows.size)
    (hne : ¬ (v.name = x ∧ v.owner = p ∧ v.level = l)) :
    (t.pushVariable v).ownVariable? x p l = t.ownVariable? x p l := by
  have hkey : ∀ kind, v.key ≠ ⟨x, p, kind, l⟩ := fun kind hk =>
    hne ⟨congrArg VarKey.name hk, congrArg VarKey.owner hk, congrArg VarKey.level hk⟩
  simp only [ownVariable?, h.findVariable?_pushVariable hv, if_neg (hkey _)]

/-- There, a new local variable comes first and a new parameter last. -/
theorem ownVariable?_pushVariable_self (h : t.Indexed) (hv : v.index = t.variableRows.size)
    (hnew : t.variableIndex[v.key]? = none) :
    (t.pushVariable v).ownVariable? v.name v.owner v.level =
      if v.kind = .localVar then some v
      else (t.ownVariable? v.name v.owner v.level).or (some v) := by
  have hnone : t.findVariable? v.key = none := by simp [findVariable?, hnew]
  simp only [ownVariable?, Option.orElse_eq_orElse, Option.orElse_eq_or,
    h.findVariable?_pushVariable hv]
  obtain ⟨x, p, kind, type, l, i⟩ := v
  cases kind with
  | localVar => simp [Variable.key]
  | parameter =>
      rw [Variable.key] at hnone
      simp [Variable.key, hnone]

theorem kind_of_ownVariable? (h : t.Indexed)
    (hnone : t.variableIndex[(⟨x, p, .localVar, l⟩ : VarKey)]? = none)
    (hv : t.ownVariable? x p l = some v) : v.kind = .parameter := by
  have hlocal : t.findVariable? ⟨x, p, .localVar, l⟩ = none := by simp [findVariable?, hnone]
  rw [ownVariable?, hlocal, Option.orElse_eq_orElse, Option.orElse_eq_or, Option.none_or,
    h.findVariable?_eq_some_iff] at hv
  exact congrArg VarKey.kind hv.2

end Indexed

/-! ## Lookups that meet a new variable -/

/-- A lookup on level `n` along a way outward meets procedure `o` on level `l`, `j` steps outward. -/
structure MeetsAt (ps : List ProcId) (n : Nat) (o : ProcId) (l j : Nat) : Prop where
  le : j ≤ n
  procedure : ps[j]? = some o
  level : n - j = l

/-- What an answer has to be to give way to a variable that is met `j` steps outward: none at all, one
from further outward, or the parameter that a local variable hides in its own procedure. -/
def YieldsTo (ps : List ProcId) (j : Nat) (v : Variable) : Option Variable → Prop
  | none => True
  | some w => (∃ i, j < i ∧ ps[i]? = some w.owner) ∨
      (w.kind = .parameter ∧ w.owner = v.owner ∧ w.level = v.level ∧ v.kind = .localVar)

namespace Indexed

variable {j : Nat}

theorem firstVariable?_pushVariable_of_not (h : t.Indexed) (hv : v.index = t.variableRows.size)
    (hne : ¬ (v.name = x ∧ ∃ j, MeetsAt ps n v.owner v.level j)) :
    (t.pushVariable v).firstVariable? x ps n = t.firstVariable? x ps n := by
  refine firstVariable?_congr fun i hi p hp => h.ownVariable?_pushVariable_of_not hv ?_
  rintro ⟨hx, rfl, hl⟩
  exact hne ⟨hx, i, hi, hp, hl.symm⟩

/-- A lookup that meets a new variable finds it, or finds what is nearer. -/
theorem firstVariable?_pushVariable_of_meets (h : t.Indexed) (hv : v.index = t.variableRows.size)
    (hnew : t.variableIndex[v.key]? = none) (hps : ps.Nodup)
    (hj : MeetsAt ps n v.owner v.level j) :
    (YieldsTo ps j v (t.firstVariable? v.name ps n) →
      (t.pushVariable v).firstVariable? v.name ps n = some v) ∧
    (¬ YieldsTo ps j v (t.firstVariable? v.name ps n) →
      (t.pushVariable v).firstVariable? v.name ps n = t.firstVariable? v.name ps n) := by
  obtain ⟨hle, hget, hlevel⟩ := hj
  have hposition : ∀ i, ps[i]? = some v.owner → i = j := fun i hi =>
    (List.getElem?_inj (List.getElem?_eq_some_iff.mp hi).1 hps).mp (hi.trans hget.symm)
  -- the way is cut at the owner of the new variable, which is on neither side of the cut
  obtain ⟨inner, outer, rfl, rfl⟩ : ∃ inner outer, ps = inner ++ v.owner :: outer ∧
      inner.length = j := by
    obtain ⟨hlt, hget⟩ := List.getElem?_eq_some_iff.mp hget
    refine ⟨ps.take j, ps.drop (j + 1), ?_, List.length_take_of_le (Nat.le_of_lt hlt)⟩
    rw [← hget, ← List.drop_eq_getElem_cons, List.take_append_drop]
  obtain ⟨-, houter, hinner⟩ := List.nodup_append.mp hps
  have hbeside : ∀ qs m, v.owner ∉ qs →
      (t.pushVariable v).firstVariable? v.name qs m = t.firstVariable? v.name qs m :=
    fun qs m hqs => h.firstVariable?_pushVariable_of_not hv fun ⟨_, _, hmeets⟩ =>
      hqs (List.mem_of_getElem? hmeets.procedure)
  rw [firstVariable?_append, firstVariable?_append, if_pos hle, if_pos hle, firstVariable?_cons,
    firstVariable?_cons, hlevel, hbeside inner n fun hmem => hinner _ hmem _ (by simp) rfl,
    hbeside outer _ (List.nodup_cons.mp houter).1, h.ownVariable?_pushVariable_self hv hnew]
  cases hnear : t.firstVariable? v.name inner n with
  | some w =>
      obtain ⟨i, -, hi, -⟩ := h.exists_of_firstVariable? hnear
      have hlt := (List.getElem?_eq_some_iff.mp hi).1
      have hw : (inner ++ v.owner :: outer)[i]? = some w.owner :=
        (List.getElem?_append_left hlt).trans hi
      refine ⟨fun hyields => ?_, fun _ => rfl⟩
      rcases hyields with ⟨k, hk, hkw⟩ | ⟨-, howner, -⟩
      · have := (List.getElem?_inj (List.getElem?_eq_some_iff.mp hw).1 hps).mp (hw.trans hkw.symm)
        omega
      · exact absurd (hposition i (howner ▸ hw)) (Nat.ne_of_lt hlt)
  | none =>
      cases hown : t.ownVariable? v.name v.owner v.level with
      | some w =>
          obtain ⟨howner, hwlevel⟩ := h.of_ownVariable? hown
          simp only [Option.none_or, Option.some_or]
          cases hkind : v.kind with
          | localVar =>
              have hlocal : t.variableIndex[(⟨v.name, v.owner, .localVar, v.level⟩ : VarKey)]? =
                  none := hkind ▸ hnew
              have hparameter := h.kind_of_ownVariable? hlocal hown
              exact ⟨fun _ => rfl, fun hnot => absurd (.inr ⟨hparameter, howner, hwlevel, hkind⟩) hnot⟩
          | parameter =>
              refine ⟨fun hyields => ?_, fun _ => rfl⟩
              rcases hyields with ⟨k, hk, hkw⟩ | ⟨-, -, -, hlocal⟩
              · exact absurd (hposition k (howner ▸ hkw)) (Nat.ne_of_gt hk)
              · cases hkind.symm.trans hlocal
      | none =>
          simp only [Option.none_or, Option.some_or, ite_self]
          refine ⟨fun _ => trivial, fun hnot => absurd ?_ hnot⟩
          -- all that is left are answers from further outward
          split
          · trivial
          · cases hfar : t.firstVariable? v.name outer (v.level - 1) with
            | none => trivial
            | some w =>
                obtain ⟨i, -, hi, -⟩ := h.exists_of_firstVariable? hfar
                refine .inl ⟨inner.length + (i + 1), by omega, ?_⟩
                rw [List.getElem?_append_right (Nat.le_add_right _ _), Nat.add_sub_cancel_left]
                exact hi

end Indexed

/-! ## New functions -/

/-- A new function is found by its name, in its parent and one level below it only. -/
theorem ownProcedure?_pushProcedure_of_not {r : Procedure} (hr : t.procedure? p = some r)
    (hne : f.key ≠ ⟨x, r.level + 1, some p⟩) :
    (t.pushProcedure f).ownProcedure? x p = t.ownProcedure? x p := by
  have hkept := procedure?_pushProcedure_of_some hr f
  simp [ownProcedure?, hkept, hr, findProcedure?_pushProcedure, hne]

/-! ## Declarations -/

theorem Outward.resolveVariable?_eq (h : t.Outward p ps) (hlength : ps.length ≤ p.index + 1)
    (x : Text) (n : Nat) : t.resolveVariable? x p n = t.firstVariable? x ps n := by
  rw [resolveVariable?, enclosing, h.ancestry_eq hlength]

theorem Outward.resolveProcedure?_eq (h : t.Outward p ps) (hlength : ps.length ≤ p.index + 1)
    (x : Text) : t.resolveProcedure? x p = ps.findSome? (t.ownProcedure? x) := by
  rw [resolveProcedure?, enclosing, h.ancestry_eq hlength]

theorem Outward.pushVariable (h : t.Outward p ps) (v : Variable) : (t.pushVariable v).Outward p ps :=
  h.mono fun _ _ hr => hr

theorem Outward.pushProcedure (h : t.Outward p ps) (f : Procedure) :
    (t.pushProcedure f).Outward p ps :=
  h.mono fun _ _ hr => procedure?_pushProcedure_of_some hr f

/-- A lookup changes with a declared variable only if it meets it, and then to that variable. -/
theorem resolveVariable?_declareVariable (h : t.Indexed) (hout : t.Outward p ps) (hps : ps.Nodup)
    (hlength : ps.length ≤ p.index + 1) (y type : Text) (kind : VarKind) :
    let d := t.declareVariable y o kind type l
    let v : Variable := ⟨y, o, kind, type, l, t.variableCount⟩
    let old := t.resolveVariable? x p n
    let new := d.2.resolveVariable? x p n
    (¬ (d.1.isDuplicate = false ∧ x = y ∧ ∃ j, MeetsAt ps n o l j) → new = old) ∧
      ∀ j, d.1.isDuplicate = false → x = y → MeetsAt ps n o l j →
        (YieldsTo ps j v old → new = some v) ∧ (¬ YieldsTo ps j v old → new = old) := by
  cases hf : t.variableIndex[(⟨y, o, kind, l⟩ : VarKey)]? with
  | some i => simp [declareVariable_of_some hf, Declared.isDuplicate]
  | none =>
      simp only [declareVariable_of_none hf, hout.resolveVariable?_eq hlength,
        (hout.pushVariable _).resolveVariable?_eq hlength]
      constructor
      · intro hnot
        refine h.firstVariable?_pushVariable_of_not rfl fun ⟨hx, hmeets⟩ => ?_
        exact hnot ⟨rfl, hx.symm, hmeets⟩
      · rintro j - rfl hmeets
        exact h.firstVariable?_pushVariable_of_meets rfl hf hps hmeets

/-- What a variable stands for does not change with a declared function. -/
theorem resolveVariable?_declareProcedure (hout : t.Outward p ps) (hlength : ps.length ≤ p.index + 1)
    (y type : Text) :
    (t.declareProcedure y type l o).2.resolveVariable? x p n = t.resolveVariable? x p n := by
  cases hf : t.findProcedure? ⟨y, l, some o⟩ with
  | some q => rw [declareProcedure_of_some hf]
  | none =>
      simp only [declareProcedure_of_none hf, hout.resolveVariable?_eq hlength,
        (hout.pushProcedure _).resolveVariable?_eq hlength]
      exact firstVariable?_congr fun _ _ _ _ => rfl

/-- What a function stands for does not change with a declared variable. -/
theorem resolveProcedure?_declareVariable (hout : t.Outward p ps)
    (hlength : ps.length ≤ p.index + 1) (y type : Text) (kind : VarKind) :
    (t.declareVariable y o kind type l).2.resolveProcedure? x p = t.resolveProcedure? x p := by
  cases hf : t.variableIndex[(⟨y, o, kind, l⟩ : VarKey)]? with
  | some i => rw [declareVariable_of_some hf]
  | none =>
      simp only [declareVariable_of_none hf, hout.resolveProcedure?_eq hlength,
        (hout.pushVariable _).resolveProcedure?_eq hlength]
      rfl

/-- A lookup changes with a declared function only if it comes by the parent of that, and only if the
function is one level below its parent. -/
theorem of_resolveProcedure?_declareProcedure (hout : t.Outward p ps)
    (hlength : ps.length ≤ p.index + 1) {y type : Text}
    (hne : (t.declareProcedure y type l o).2.resolveProcedure? x p ≠ t.resolveProcedure? x p) :
    (t.declareProcedure y type l o).1.isDuplicate = false ∧ x = y ∧ o ∈ ps ∧
      ∃ r, t.procedure? o = some r ∧ l = r.level + 1 := by
  cases hf : t.findProcedure? ⟨y, l, some o⟩ with
  | some q => exact absurd (by rw [declareProcedure_of_some hf]) hne
  | none =>
      simp only [declareProcedure_of_none hf, hout.resolveProcedure?_eq hlength,
        (hout.pushProcedure _).resolveProcedure?_eq hlength] at hne ⊢
      refine ⟨rfl, Classical.byContradiction fun hnot => hne ?_⟩
      -- no procedure on the way has the new function as its own
      have hown : ∀ q ∈ ps, (t.pushProcedure ⟨y, type, l, 0, 0, some o⟩).ownProcedure? x q =
          t.ownProcedure? x q := by
        intro q hq
        obtain ⟨r, hr⟩ := hout.exists_procedure hq
        refine ownProcedure?_pushProcedure_of_not hr fun hkey => hnot ?_
        simp only [Procedure.key, ProcKey.mk.injEq, Option.some.injEq] at hkey
        obtain ⟨rfl, rfl, rfl⟩ := hkey
        exact ⟨rfl, hq, r, hr, rfl⟩
      exact findSome?_eq_of_forall hown

/-- Whatever the names, types and levels are that were declared, a further declaration changes only
lookups that meet it on their way outward from a procedure. The answer for a variable changes only to
a new variable of its name that is met on its level, and it changes to that if it was none, came from
further outward, or was the parameter that the new local variable hides; functions have no part in
it. The answer for a function changes only with a new function of its name, one level below a
procedure on the way; variables have no part in it. -/
theorem declarations_change_visible_lookups {cs : List TableCall}
    (h : initial.Permitted [root] cs) :
    let t := (initial.performAll cs).2
    (∀ s r, t.procedure? s = some r → ∃ ps, t.Outward s ps) ∧
    ∀ s ps, t.Outward s ps →
      (∀ y o kind type l x n,
        let d := t.declareVariable y o kind type l
        let v : Variable := ⟨y, o, kind, type, l, t.variableCount⟩
        let old := t.resolveVariable? x s n
        let new := d.2.resolveVariable? x s n
        (¬ (d.1.isDuplicate = false ∧ x = y ∧ ∃ j, MeetsAt ps n o l j) → new = old) ∧
          ∀ j, d.1.isDuplicate = false → x = y → MeetsAt ps n o l j →
            (YieldsTo ps j v old → new = some v) ∧ (¬ YieldsTo ps j v old → new = old)) ∧
      (∀ y type l o x n,
        (t.declareProcedure y type l o).2.resolveVariable? x s n = t.resolveVariable? x s n) ∧
      (∀ y o kind type l x,
        (t.declareVariable y o kind type l).2.resolveProcedure? x s = t.resolveProcedure? x s) ∧
      ∀ y type l o x,
        (t.declareProcedure y type l o).2.resolveProcedure? x s ≠ t.resolveProcedure? x s →
        (t.declareProcedure y type l o).1.isDuplicate = false ∧ x = y ∧ o ∈ ps ∧
          ∃ r, t.procedure? o = some r ∧ l = r.level + 1 := by
  intro t
  obtain ⟨hstanding, -⟩ := standing_initial.performAll h
  refine ⟨fun s r hs => ?_, fun s ps hout => ?_⟩
  · have hkey := key?_of_procedure hs
    exact ⟨_, (hstanding.parentsEarlier.outward_ancestry hkey (Nat.lt_succ_self _)).1⟩
  · obtain ⟨hps, hlength, -⟩ := hout.goes_up hstanding.parentsEarlier
    refine ⟨?_, ?_, ?_, ?_⟩
    · intro y o kind type l x n
      exact resolveVariable?_declareVariable hstanding.indexed hout hps hlength y type kind
    · intro y type l o x n
      exact resolveVariable?_declareProcedure hout hlength y type
    · intro y o kind type l x
      exact resolveProcedure?_declareVariable hout hlength y type kind
    · intro y type l o x hne
      exact of_resolveProcedure?_declareProcedure hout hlength hne

/-- A function in a function, on levels that fit no nesting, with a parameter in the outer one. -/
def hiddenParameter : List TableCall :=
  [.addProcedure "f".toList "integer".toList 4 root,
    .addProcedure "g".toList "integer".toList 9 ⟨1⟩,
    .addVariable "x".toList ⟨1⟩ .parameter "integer".toList 6]

/-- Seen from the inner function, a local variable of the outer one hides the parameter if the lookup
meets it on its level. -/
theorem declarations_change_visible_lookups_hidden :
    let t := (initial.performAll hiddenParameter).2
    let new := (t.declareVariable "x".toList ⟨1⟩ .localVar "integer".toList 6).2
    initial.Permitted [root] hiddenParameter ∧ t.Outward ⟨2⟩ [⟨2⟩, ⟨1⟩, ⟨0⟩] ∧
      (t.resolveVariable? "x".toList ⟨2⟩ 7).map (·.kind) = some .parameter ∧
      new.resolveVariable? "x".toList ⟨2⟩ 7 =
        some ⟨"x".toList, ⟨1⟩, .localVar, "integer".toList, 6, 1⟩ ∧
      new.resolveVariable? "x".toList ⟨2⟩ 8 = t.resolveVariable? "x".toList ⟨2⟩ 8 := by
  intro t new
  have hcalls : initial.Permitted [root] hiddenParameter := by decide +kernel
  have hout : t.Outward ⟨2⟩ [⟨2⟩, ⟨1⟩, ⟨0⟩] := .next rfl rfl (.next rfl rfl (.last rfl rfl))
  obtain ⟨hvariables, -⟩ := (declarations_change_visible_lookups hcalls).2 ⟨2⟩ _ hout
  have hold : t.resolveVariable? "x".toList ⟨2⟩ 7 =
      some ⟨"x".toList, ⟨1⟩, .parameter, "integer".toList, 6, 0⟩ := by decide +kernel
  have hnew : (t.declareVariable "x".toList ⟨1⟩ .localVar "integer".toList 6).1.isDuplicate =
      false := by decide +kernel
  refine ⟨hcalls, hout, by rw [hold]; rfl, ?_, ?_⟩
  · refine ((hvariables "x".toList ⟨1⟩ .localVar "integer".toList 6 "x".toList 7).2 1 hnew rfl
      ⟨by decide, rfl, rfl⟩).1 ?_
    rw [hold]
    exact .inr ⟨rfl, rfl, rfl, rfl⟩
  · refine (hvariables "x".toList ⟨1⟩ .localVar "integer".toList 6 "x".toList 8).1 ?_
    rintro ⟨-, -, j, hle, hget, hlevel⟩
    -- on level 6 the lookup is at the main procedure already
    obtain rfl : j = 2 := by omega
    cases hget

end BlockLang.SymbolTable
