import BlockLang.Proofs.Symbol.WellFormed

/-!
# Paths of procedures

The path of a procedure is its name and those of the functions around it, from the inside outward.
In a well-formed table every procedure has one path and no other procedure has the same; names are
looked up along it.
-/

namespace BlockLang

namespace SymbolTable

/-- The names of a procedure and of the functions around it, but for the main procedure. -/
inductive HasPath (t : SymbolTable) : ProcId → List Text → Prop
  | main : HasPath t root []
  | inside {p q : ProcId} {k : ProcKey} {π : List Text} (hq : t.key? q = some k)
      (hparent : k.parent = some p) (hp : HasPath t p π) : HasPath t q (k.name :: π)

variable {t t' : SymbolTable} {p q : ProcId} {π ρ : List Text}

namespace WellFormed

theorem exists_hasPath (h : t.WellFormed) {k : ProcKey} (hq : t.key? q = some k) :
    ∃ π, t.HasPath q π := by
  generalize hn : q.index = n
  induction n using Nat.strongRecOn generalizing q k with
  | _ n ih =>
      -- by the position in the table: a procedure comes behind the one that encloses it
      by_cases hroot : q = root
      · exact ⟨[], hroot ▸ .main⟩
      · obtain ⟨r, m, hparent, hm, hlt, -⟩ := h.inside q k hq hroot
        obtain ⟨π, hπ⟩ := ih r.index (hn ▸ hlt) hm rfl
        exact ⟨_, .inside hq hparent hπ⟩

/-- A procedure with a path is in the table, and its level is the length of the path. -/
theorem level_eq (h : t.WellFormed) (hq : t.HasPath q π) :
    ∃ k, t.key? q = some k ∧ k.level = π.length := by
  induction hq with
  | main =>
      obtain ⟨m, hm, -, hl⟩ := h.main
      exact ⟨m, hm, hl⟩
  | @inside p q k π hq hparent hp ih =>
      obtain ⟨m, hm, hl⟩ := ih
      obtain ⟨m', hm', -, hlevel⟩ := h.of_parent hq hparent
      cases hm.symm.trans hm'
      exact ⟨k, hq, by simp [hlevel, hl]⟩

/-- No two procedures have the same path. -/
theorem eq_of_hasPath (h : t.WellFormed) (hp : t.HasPath p π) (hq : t.HasPath q π) : p = q := by
  induction hp generalizing q with
  | main =>
      cases hq with
      | main => rfl
  | @inside r p k π hk hparent hr ih =>
      generalize hx : k.name :: π = σ at hq
      cases hq with
      | main => cases hx
      | @inside r' q k' π' hk' hparent' hr' =>
          obtain ⟨hname, rfl⟩ := List.cons.inj hx
          cases ih hr'
          obtain ⟨m, hm, hl⟩ := h.level_eq (.inside hk hparent hr)
          obtain ⟨m', hm', hl'⟩ := h.level_eq (.inside hk' hparent' hr')
          cases hk.symm.trans hm
          cases hk'.symm.trans hm'
          -- one name, one parent and, by the length of the path, one level: one identity
          have hkey : k = k' := by
            cases k
            cases k'
            simp_all
          have hfind := (h.findProcedure?_iff k p).mpr hk
          have hfind' := (h.findProcedure?_iff k q).mpr (hkey ▸ hk')
          exact Option.some.inj (hfind.symm.trans hfind')

/-- No procedure has two paths. -/
theorem hasPath_unique (h : t.WellFormed) (hπ : t.HasPath q π) (hρ : t.HasPath q ρ) : π = ρ := by
  have hmain : ∀ k p, t.key? root = some k → k.parent ≠ some p := by
    intro k p hk hp
    obtain ⟨m, hm, hnone, -⟩ := h.main
    cases hm.symm.trans hk
    simp [hnone] at hp
  induction hπ generalizing ρ with
  | main =>
      cases hρ with
      | main => rfl
      | inside hk hparent => exact absurd hparent (hmain _ _ hk)
  | inside hk hparent _ ih =>
      cases hρ with
      | main => exact absurd hparent (hmain _ _ hk)
      | inside hk' hparent' hr' =>
          cases hk.symm.trans hk'
          cases hparent.symm.trans hparent'
          rw [ih hr']

end WellFormed

/-! ## Growing tables -/

/-- The procedures of one table are those of another, and perhaps more. -/
def Extends (t' t : SymbolTable) : Prop := ∀ q k, t.key? q = some k → t'.key? q = some k

theorem Extends.hasPath (h : t'.Extends t) (hq : t.HasPath q π) : t'.HasPath q π := by
  induction hq with
  | main => exact .main
  | inside hk hparent _ ih => exact .inside (h _ _ hk) hparent ih

/-- The paths of the procedures that were there before are the same. -/
theorem Extends.hasPath_iff (h : t'.Extends t) (ht : t.WellFormed) (ht' : t'.WellFormed)
    {k : ProcKey} (hq : t.key? q = some k) : t'.HasPath q π ↔ t.HasPath q π := by
  constructor
  · intro hπ
    obtain ⟨ρ, hρ⟩ := ht.exists_hasPath hq
    rw [ht'.hasPath_unique hπ (h.hasPath hρ)]
    exact hρ
  · exact h.hasPath

end SymbolTable

end BlockLang
