import BlockLang.Proofs.Symbol.Paths

/-!
# Lookups along a path

In a well-formed table the procedures that enclose another one are those whose paths are ends of its
path, and a name is found exactly if one of these procedures has it. The level that goes down with
the search reaches 0 together with the main procedure, so that it neither ends the search early nor
hides a variable.
-/

namespace BlockLang

namespace SymbolTable

/-- What a procedure has under a name on its own level. -/
def variableOf? (t : SymbolTable) (x : Text) (p : ProcId) : Option Variable :=
  (t.procedure? p).bind fun r => t.ownVariable? x p r.level

variable {t : SymbolTable} {p q : ProcId} {π : List Text} {x : Text} {v : Variable} {n : Nat}

theorem Indexed.findVariable?_eq_some_iff (h : t.Indexed) (k : VarKey) :
    t.findVariable? k = some v ↔ v ∈ t.variableRows ∧ v.key = k := by
  rw [findVariable?]
  constructor
  · intro hf
    obtain ⟨i, hi, hv⟩ := Option.bind_eq_some_iff.mp hf
    obtain ⟨w, hw, hk⟩ := (h.variableIndex_iff k i).mp hi
    cases hv.symm.trans hw
    exact ⟨Array.mem_of_getElem? hv, hk⟩
  · rintro ⟨hv, hk⟩
    obtain ⟨i, hi⟩ := Array.mem_iff_getElem?.mp hv
    exact Option.bind_eq_some_iff.mpr ⟨i, (h.variableIndex_iff k i).mpr ⟨v, hi, hk⟩, hi⟩

theorem HasPath.exists_tail {f : Text} (h : t.HasPath q (f :: π)) : ∃ p, t.HasPath p π := by
  generalize hσ : f :: π = σ at h
  cases h with
  | main => cases hσ
  | inside _ _ hp =>
      obtain ⟨-, rfl⟩ := List.cons.inj hσ
      exact ⟨_, hp⟩

namespace WellFormed

/-! ## Enclosing procedures -/

theorem ancestry_main (h : t.WellFormed) (n : Nat) : t.ancestry (n + 1) root = [root] := by
  obtain ⟨m, hm, hnone, -⟩ := h.main
  obtain ⟨r, hr, rfl⟩ := Option.map_eq_some_iff.mp hm
  have hparent : r.parent = none := hnone
  simp [ancestry, hr, hparent]

theorem ancestry_inside {q : ProcId} {k : ProcKey} (hq : t.key? q = some k)
    (hparent : k.parent = some p) (n : Nat) : t.ancestry (n + 1) q = q :: t.ancestry n p := by
  obtain ⟨r, hr, rfl⟩ := Option.map_eq_some_iff.mp hq
  have hparent : r.parent = some p := hparent
  simp [ancestry, hr, hparent]

theorem index_lt_of_parent (h : t.WellFormed) {q : ProcId} {k : ProcKey} (hq : t.key? q = some k)
    (hparent : k.parent = some p) : p.index < q.index := by
  obtain ⟨m, -, hlt, -⟩ := h.of_parent hq hparent
  exact hlt

/-- Around a procedure are those whose paths are ends of its path. -/
theorem mem_ancestry_iff (h : t.WellFormed) (hp : t.HasPath p π) (hn : p.index < n) :
    q ∈ t.ancestry n p ↔ ∃ σ, σ <:+ π ∧ t.HasPath q σ := by
  induction hp generalizing n with
  | main =>
      obtain ⟨n, rfl⟩ : ∃ m, n = m + 1 := ⟨n - 1, by omega⟩
      rw [h.ancestry_main, List.mem_singleton]
      constructor
      · rintro rfl
        exact ⟨[], List.suffix_refl _, .main⟩
      · rintro ⟨σ, hσ, hq⟩
        obtain rfl := List.suffix_nil.mp hσ
        exact h.eq_of_hasPath hq .main
  | @inside p r k π hr hparent hp ih =>
      obtain ⟨n, rfl⟩ : ∃ m, n = m + 1 := ⟨n - 1, by omega⟩
      have hlt := h.index_lt_of_parent hr hparent
      -- the whole path is that of the procedure itself
      have hself : q = r ↔ t.HasPath q (k.name :: π) :=
        ⟨fun hq => hq ▸ .inside hr hparent hp,
          fun hq => h.eq_of_hasPath hq (.inside hr hparent hp)⟩
      rw [ancestry_inside hr hparent, List.mem_cons, ih (by omega), hself]
      simp only [List.suffix_cons_iff, or_and_right, exists_or, exists_eq_left]

theorem mem_enclosing_iff (h : t.WellFormed) (hp : t.HasPath p π) :
    q ∈ t.enclosing p ↔ ∃ σ, σ <:+ π ∧ t.HasPath q σ :=
  h.mem_ancestry_iff hp (Nat.lt_succ_self _)

/-! ## Variables -/

theorem exists_variableIndex_iff (h : t.WellFormed) (k : VarKey) :
    (∃ i, t.variableIndex[k]? = some i) ↔ ∃ v ∈ t.variableRows, v.key = k := by
  constructor
  · rintro ⟨i, hi⟩
    obtain ⟨v, hv, hk⟩ := (h.variableIndex_iff k i).mp hi
    exact ⟨v, Array.mem_of_getElem? hv, hk⟩
  · rintro ⟨v, hv, hk⟩
    obtain ⟨i, hi⟩ := Array.mem_iff_getElem?.mp hv
    exact ⟨i, (h.variableIndex_iff k i).mpr ⟨v, hi, hk⟩⟩

theorem isSome_findVariable?_iff (h : t.WellFormed) (k : VarKey) :
    (t.findVariable? k).isSome ↔ ∃ v ∈ t.variableRows, v.key = k := by
  simp only [Option.isSome_iff_exists, h.findVariable?_eq_some_iff]

/-- The variables of a procedure are on its level. -/
theorem level_eq_of_owner (h : t.WellFormed) (hp : t.HasPath p π)
    (hv : v ∈ t.variableRows) (ho : v.owner = p) : v.level = π.length := by
  obtain ⟨k, hk, hlevel⟩ := h.level_eq hp
  obtain ⟨k', hk', hl⟩ := h.owned v hv
  rw [ho, hk] at hk'
  cases hk'
  rw [← hl, hlevel]

/-- Among the variables of a procedure, name and kind make up the identity. -/
theorem key_eq_iff (h : t.WellFormed) (hp : t.HasPath p π) (hv : v ∈ t.variableRows)
    (kind : VarKind) :
    v.key = ⟨x, p, kind, π.length⟩ ↔ v.name = x ∧ v.owner = p ∧ v.kind = kind := by
  simp only [Variable.key, VarKey.mk.injEq]
  constructor
  · rintro ⟨hname, howner, hkind, -⟩
    exact ⟨hname, howner, hkind⟩
  · rintro ⟨hname, howner, hkind⟩
    exact ⟨hname, howner, hkind, h.level_eq_of_owner hp hv howner⟩

theorem isSome_ownVariable?_iff (h : t.WellFormed) (hp : t.HasPath p π) (x : Text) :
    (t.ownVariable? x p π.length).isSome ↔ ∃ v ∈ t.variableRows, v.name = x ∧ v.owner = p := by
  simp only [ownVariable?, Option.orElse_eq_orElse, Option.orElse_eq_or, Option.isSome_or,
    Bool.or_eq_true, h.isSome_findVariable?_iff]
  constructor
  · rintro (⟨v, hv, hkey⟩ | ⟨v, hv, hkey⟩) <;>
      exact ⟨v, hv, congrArg VarKey.name hkey, congrArg VarKey.owner hkey⟩
  · rintro ⟨v, hv, hx, ho⟩
    cases hkind : v.kind with
    | localVar => exact .inl ⟨v, hv, (h.key_eq_iff hp hv _).mpr ⟨hx, ho, hkind⟩⟩
    | parameter => exact .inr ⟨v, hv, (h.key_eq_iff hp hv _).mpr ⟨hx, ho, hkind⟩⟩

theorem variableOf?_eq (h : t.WellFormed) (hp : t.HasPath p π) (x : Text) :
    t.variableOf? x p = t.ownVariable? x p π.length := by
  obtain ⟨k, hk, hl⟩ := h.level_eq hp
  obtain ⟨r, hr, rfl⟩ := exists_procedure_of_key? hk
  have hlevel : r.level = π.length := hl
  rw [variableOf?, hr, Option.bind_some, hlevel]

theorem isSome_variableOf?_iff (h : t.WellFormed) (hp : t.HasPath p π) (x : Text) :
    (t.variableOf? x p).isSome ↔ ∃ v ∈ t.variableRows, v.name = x ∧ v.owner = p := by
  rw [h.variableOf?_eq hp, h.isSome_ownVariable?_iff hp]

/-- The level that goes down with the search is that of each procedure it comes to. -/
theorem firstVariable?_eq_findSome? (h : t.WellFormed) (hp : t.HasPath p π) (x : Text)
    (hn : p.index < n) : t.firstVariable? x (t.ancestry n p) π.length =
      (t.ancestry n p).findSome? (t.variableOf? x) := by
  induction hp generalizing n with
  | main =>
      obtain ⟨n, rfl⟩ : ∃ m, n = m + 1 := ⟨n - 1, by omega⟩
      rw [h.ancestry_main, List.findSome?_cons, h.variableOf?_eq .main]
      cases hown : t.ownVariable? x root 0 <;> simp [firstVariable?, hown]
  | @inside p q k π hq hparent hp ih =>
      obtain ⟨n, rfl⟩ : ∃ m, n = m + 1 := ⟨n - 1, by omega⟩
      have hlt := h.index_lt_of_parent hq hparent
      rw [ancestry_inside hq hparent, List.findSome?_cons,
        h.variableOf?_eq (.inside hq hparent hp), ← ih (by omega), List.length_cons, firstVariable?]
      cases t.ownVariable? x q (π.length + 1) <;> rfl

theorem resolveVariable?_eq_findSome? (h : t.WellFormed) (hp : t.HasPath p π) (x : Text) :
    t.resolveVariable? x p π.length = (t.enclosing p).findSome? (t.variableOf? x) :=
  h.firstVariable?_eq_findSome? hp x (Nat.lt_succ_self _)

theorem isSome_resolveVariable?_iff (h : t.WellFormed) (hp : t.HasPath p π) (x : Text) :
    (t.resolveVariable? x p π.length).isSome ↔
      ∃ σ, σ <:+ π ∧ ∃ v ∈ t.variableRows, v.name = x ∧ t.HasPath v.owner σ := by
  rw [h.resolveVariable?_eq_findSome? hp, List.findSome?_isSome_iff]
  constructor
  · rintro ⟨q, hq, hsome⟩
    obtain ⟨σ, hσ, hqσ⟩ := (h.mem_enclosing_iff hp).mp hq
    obtain ⟨v, hv, hx, rfl⟩ := (h.isSome_variableOf?_iff hqσ x).mp hsome
    exact ⟨σ, hσ, v, hv, hx, hqσ⟩
  · rintro ⟨σ, hσ, v, hv, hx, ho⟩
    exact ⟨v.owner, (h.mem_enclosing_iff hp).mpr ⟨σ, hσ, ho⟩,
      (h.isSome_variableOf?_iff ho x).mpr ⟨v, hv, hx, rfl⟩⟩

/-! ## Functions -/

theorem isSome_findProcedure?_iff (h : t.WellFormed) (hp : t.HasPath p π) (f : Text) :
    (t.findProcedure? ⟨f, π.length + 1, some p⟩).isSome ↔ ∃ q, t.HasPath q (f :: π) := by
  constructor
  · intro hf
    obtain ⟨q, hq⟩ := Option.isSome_iff_exists.mp hf
    exact ⟨q, .inside ((h.findProcedure?_iff _ q).mp hq) rfl hp⟩
  · rintro ⟨q, hq⟩
    obtain ⟨k, hk, hl⟩ := h.level_eq hq
    generalize hσ : f :: π = σ at hq
    cases hq with
    | main => cases hσ
    | @inside p' _ k' π' hk' hparent hp' =>
        obtain ⟨rfl, rfl⟩ := List.cons.inj hσ
        cases hk.symm.trans hk'
        cases h.eq_of_hasPath hp hp'
        have hkey : k = ⟨k.name, π.length + 1, some p⟩ := by
          cases k
          simp_all
        rw [← hkey, (h.findProcedure?_iff k q).mpr hk]
        rfl

theorem isSome_ownProcedure?_iff (h : t.WellFormed) (hp : t.HasPath p π) (f : Text) :
    (t.ownProcedure? f p).isSome ↔ ∃ q, t.HasPath q (f :: π) := by
  obtain ⟨k, hk, hl⟩ := h.level_eq hp
  obtain ⟨r, hr, rfl⟩ := Option.map_eq_some_iff.mp hk
  have hlevel : r.level = π.length := hl
  simp only [ownProcedure?, hr, bind, Option.bind, hlevel]
  exact h.isSome_findProcedure?_iff hp f

theorem isSome_resolveProcedure?_iff (h : t.WellFormed) (hp : t.HasPath p π) (f : Text) :
    (t.resolveProcedure? f p).isSome ↔ ∃ σ, σ <:+ π ∧ ∃ q, t.HasPath q (f :: σ) := by
  rw [resolveProcedure?, List.findSome?_isSome_iff]
  constructor
  · rintro ⟨o, ho, hf⟩
    obtain ⟨σ, hσ, hoσ⟩ := (h.mem_enclosing_iff hp).mp ho
    exact ⟨σ, hσ, (h.isSome_ownProcedure?_iff hoσ f).mp hf⟩
  · rintro ⟨σ, hσ, q, hq⟩
    obtain ⟨o, ho⟩ := hq.exists_tail
    exact ⟨o, (h.mem_enclosing_iff hp).mpr ⟨σ, hσ, ho⟩,
      (h.isSome_ownProcedure?_iff ho f).mpr ⟨q, hq⟩⟩

end WellFormed

end SymbolTable

end BlockLang
