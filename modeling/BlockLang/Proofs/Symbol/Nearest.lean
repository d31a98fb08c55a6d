import BlockLang.Proofs.Symbol.Lookup

/-!
# The nearest procedure with a name

Where a lookup inside a procedure leads, told without levels and positions: to the entry of the
first procedure, from the inside outward to the main one, that has the name at all.
-/

namespace BlockLang

/-! ## The first element with a property -/

/-- The first element of a list that has a property. -/
def Nearest {α : Type} (P : α → Prop) (a : α) (l : List α) : Prop :=
  ∃ inner outer, l = inner ++ a :: outer ∧ P a ∧ ∀ b ∈ inner, ¬ P b

section Search

variable {α β : Type} {f : α → Option β} {P : α → Prop} {R : α → β → Prop} {l : List α}

theorem eq_none_iff_of_isSome_iff (hP : ∀ a ∈ l, (f a).isSome ↔ P a) :
    ∀ a ∈ l, f a = none ↔ ¬ P a := by
  intro a ha
  rw [← hP a ha, Option.not_isSome_iff_eq_none]

/-- A search finds what the nearest element with a property has to offer. -/
theorem findSome?_eq_some_iff_nearest (hP : ∀ a ∈ l, (f a).isSome ↔ P a)
    (hR : ∀ a ∈ l, ∀ b, f a = some b ↔ R a b) (b : β) :
    l.findSome? f = some b ↔ ∃ a, Nearest P a l ∧ R a b := by
  have hnone := eq_none_iff_of_isSome_iff hP
  rw [List.findSome?_eq_some_iff]
  constructor
  · rintro ⟨inner, a, outer, rfl, ha, hinner⟩
    have hPa : P a := (hP a (by simp)).mp (by simp [ha])
    refine ⟨a, ⟨inner, outer, rfl, hPa, fun c hc => ?_⟩, (hR a (by simp) b).mp ha⟩
    exact (hnone c (by simp [hc])).mp (hinner c hc)
  · rintro ⟨a, ⟨inner, outer, rfl, -, hinner⟩, ha⟩
    refine ⟨inner, a, outer, rfl, (hR a (by simp) b).mpr ha, fun c hc => ?_⟩
    exact (hnone c (by simp [hc])).mpr (hinner c hc)

theorem findSome?_eq_none_iff_forall (hP : ∀ a ∈ l, (f a).isSome ↔ P a) :
    l.findSome? f = none ↔ ∀ a ∈ l, ¬ P a := by
  rw [List.findSome?_eq_none_iff]
  exact forall₂_congr (eq_none_iff_of_isSome_iff hP)

end Search

namespace SymbolTable

/-! ## Names of a procedure -/

/-- A procedure and all that enclose it, from the inside outward to one that nothing encloses. -/
inductive Outward (t : SymbolTable) : ProcId → List ProcId → Prop
  | last {p : ProcId} {r : Procedure} (hp : t.procedure? p = some r) (hparent : r.parent = none) :
      Outward t p [p]
  | next {p q : ProcId} {r : Procedure} {ps : List ProcId} (hp : t.procedure? p = some r)
      (hparent : r.parent = some q) (hq : Outward t q ps) : Outward t p (p :: ps)

/-- A procedure has a variable of a name, of whatever kind. -/
def Owns (t : SymbolTable) (x : Text) (p : ProcId) : Prop :=
  ∃ v ∈ t.variableRows, v.name = x ∧ v.owner = p

/-- The variable that a procedure has under a name: the local one, or the parameter if it has no
local one. -/
structure IsEntry (t : SymbolTable) (x : Text) (p : ProcId) (v : Variable) : Prop where
  mem : v ∈ t.variableRows
  name : v.name = x
  owner : v.owner = p
  first : v.kind = .localVar ∨ ∀ w ∈ t.variableRows, w.name = x → w.owner = p → w.kind = .parameter

/-- A function of a name is declared directly inside a procedure. -/
def DeclaredIn (t : SymbolTable) (f : Text) (p q : ProcId) : Prop :=
  ∃ r, t.procedure? q = some r ∧ r.name = f ∧ r.parent = some p

variable {t : SymbolTable} {p q : ProcId} {ps : List ProcId} {π : List Text} {x f : Text}
  {v : Variable} {n : Nat}

namespace WellFormed

/-! ## Ways outward -/

theorem outward_ancestry (h : t.WellFormed) (hp : t.HasPath p π) (hn : p.index < n) :
    t.Outward p (t.ancestry n p) ∧ (t.ancestry n p).length = π.length + 1 ∧
      (t.ancestry n p).getLast? = some root := by
  induction hp generalizing n with
  | main =>
      obtain ⟨n, rfl⟩ : ∃ m, n = m + 1 := ⟨n - 1, by omega⟩
      obtain ⟨m, hm, hparent, -⟩ := h.main
      obtain ⟨r, hr, rfl⟩ := exists_procedure_of_key? hm
      rw [h.ancestry_main]
      exact ⟨.last hr hparent, rfl, rfl⟩
  | @inside p q k π hq hparent hp ih =>
      obtain ⟨n, rfl⟩ : ∃ m, n = m + 1 := ⟨n - 1, by omega⟩
      have hlt := h.index_lt_of_parent hq hparent
      obtain ⟨houtward, hlength, hlast⟩ := ih (n := n) (by omega)
      obtain ⟨r, hr, rfl⟩ := exists_procedure_of_key? hq
      rw [ancestry_inside hq hparent]
      refine ⟨.next hr hparent houtward, by simp [hlength], ?_⟩
      rw [List.getLast?_cons, hlast]
      rfl

/-! ## Variables -/

theorem ownVariable?_eq_some_iff (h : t.WellFormed) (hp : t.HasPath p π) (v : Variable) :
    t.ownVariable? x p π.length = some v ↔ t.IsEntry x p v := by
  rw [ownVariable?, Option.orElse_eq_orElse, Option.orElse_eq_or, Option.or_eq_some_iff,
    h.findVariable?_eq_some_iff, h.findVariable?_eq_some_iff, ← Option.not_isSome_iff_eq_none,
    h.isSome_findVariable?_iff]
  constructor
  · rintro (⟨hv, hk⟩ | ⟨hnone, hv, hk⟩)
    · obtain ⟨hname, howner, hkind⟩ := (h.key_eq_iff hp hv _).mp hk
      exact ⟨hv, hname, howner, .inl hkind⟩
    · obtain ⟨hname, howner, -⟩ := (h.key_eq_iff hp hv _).mp hk
      refine ⟨hv, hname, howner, .inr fun w hw hwname hwowner => ?_⟩
      cases hkind : w.kind with
      | parameter => rfl
      | localVar =>
          exact absurd ⟨w, hw, (h.key_eq_iff hp hw _).mpr ⟨hwname, hwowner, hkind⟩⟩ hnone
  · -- a parameter is looked for only where there is no local variable
    rintro ⟨hv, hname, howner, hlocal | hparameter⟩
    · exact .inl ⟨hv, (h.key_eq_iff hp hv _).mpr ⟨hname, howner, hlocal⟩⟩
    · right
      constructor
      · rintro ⟨w, hw, hk⟩
        obtain ⟨hwname, hwowner, hkind⟩ := (h.key_eq_iff hp hw _).mp hk
        cases hkind.symm.trans (hparameter w hw hwname hwowner)
      · have hkind := hparameter v hv hname howner
        exact ⟨hv, (h.key_eq_iff hp hv _).mpr ⟨hname, howner, hkind⟩⟩

/-- A name stands for the entry of the nearest procedure that has a variable of it. -/
theorem resolveVariable?_iff (h : t.WellFormed) (hp : t.HasPath p π) (x : Text) :
    (∀ v, t.resolveVariable? x p π.length = some v ↔
      ∃ q, Nearest (t.Owns x) q (t.enclosing p) ∧ t.IsEntry x q v) ∧
    (t.resolveVariable? x p π.length = none ↔ ∀ q ∈ t.enclosing p, ¬ t.Owns x q) := by
  have hsome : ∀ q ∈ t.enclosing p, (t.variableOf? x q).isSome ↔ t.Owns x q := by
    intro q hq
    obtain ⟨ρ, -, hρ⟩ := (h.mem_enclosing_iff hp).mp hq
    exact h.isSome_variableOf?_iff hρ x
  have hentry : ∀ q ∈ t.enclosing p, ∀ v, t.variableOf? x q = some v ↔ t.IsEntry x q v := by
    intro q hq v
    obtain ⟨ρ, -, hρ⟩ := (h.mem_enclosing_iff hp).mp hq
    rw [h.variableOf?_eq hρ, h.ownVariable?_eq_some_iff hρ]
  rw [h.resolveVariable?_eq_findSome? hp]
  exact ⟨findSome?_eq_some_iff_nearest hsome hentry, findSome?_eq_none_iff_forall hsome⟩

/-! ## Functions -/

theorem ownProcedure?_eq_some_iff (h : t.WellFormed) (hp : t.HasPath p π) (f : Text) (q : ProcId) :
    t.ownProcedure? f p = some q ↔ t.DeclaredIn f p q := by
  obtain ⟨k, hk, -⟩ := h.level_eq hp
  obtain ⟨o, ho, rfl⟩ := exists_procedure_of_key? hk
  have hown : t.ownProcedure? f p = t.findProcedure? ⟨f, o.level + 1, some p⟩ := by
    simp [ownProcedure?, ho]
  rw [hown, h.findProcedure?_iff]
  constructor
  · intro hq
    obtain ⟨r, hr, hkey⟩ := exists_procedure_of_key? hq
    exact ⟨r, hr, congrArg ProcKey.name hkey, congrArg ProcKey.parent hkey⟩
  · rintro ⟨r, hr, rfl, hparent⟩
    have hq := key?_of_procedure hr
    obtain ⟨m, hm, -, hlevel⟩ := h.of_parent hq hparent
    obtain rfl : m = o.key := Option.some.inj (hm.symm.trans hk)
    have hkey : r.key = ⟨r.name, o.level + 1, some p⟩ := by
      simp only [Procedure.key, ProcKey.mk.injEq]
      exact ⟨trivial, hlevel, hparent⟩
    rw [← hkey, hq]

/-- A name of a function stands for the one in the nearest procedure that has such a function. -/
theorem resolveProcedure?_iff (h : t.WellFormed) (hp : t.HasPath p π) (f : Text) :
    (∀ q, t.resolveProcedure? f p = some q ↔
      ∃ o, Nearest (fun o => ∃ q, t.DeclaredIn f o q) o (t.enclosing p) ∧ t.DeclaredIn f o q) ∧
    (t.resolveProcedure? f p = none ↔ ∀ o ∈ t.enclosing p, ¬ ∃ q, t.DeclaredIn f o q) := by
  have hdeclared : ∀ o ∈ t.enclosing p, ∀ q, t.ownProcedure? f o = some q ↔ t.DeclaredIn f o q := by
    intro o ho
    obtain ⟨ρ, -, hρ⟩ := (h.mem_enclosing_iff hp).mp ho
    exact h.ownProcedure?_eq_some_iff hρ f
  have hsome : ∀ o ∈ t.enclosing p, (t.ownProcedure? f o).isSome ↔ ∃ q, t.DeclaredIn f o q := by
    intro o ho
    rw [Option.isSome_iff_exists]
    exact exists_congr (hdeclared o ho)
  exact ⟨findSome?_eq_some_iff_nearest hsome hdeclared, findSome?_eq_none_iff_forall hsome⟩

end WellFormed

end SymbolTable

end BlockLang
