import BlockLang.Proofs.Analysis.Reachability
import BlockLang.Proofs.Symbol.Nearest

/-!
# Visible names

At every point of a parse a name stands for what the nearest enclosing procedure that has it has
under it, so that inner declarations hide outer ones and nothing else is hidden.
-/

namespace BlockLang.Parse

open SymbolTable (root)

variable {ts left : List Token} {source : Text} {s : Session}

/-- Lookups at a point of a parse go through the current scope and the procedures around it, as many
as its level says and the main one last. A variable is the entry of the nearest of them that has one
of the name, a function that of the nearest of them in which one of the name is declared. They find
nothing only if there is no such procedure. -/
theorem Passes.resolves_to_nearest (h : Passes (Token.significant ts) source left s) (x : Text) :
    ∃ ps, s.symbols.Outward s.scope.procedure ps ∧ ps.length = s.scope.level + 1 ∧
      ps.getLast? = some root ∧
      (∀ v, s.symbols.resolveVariable? x s.scope.procedure s.scope.level = some v ↔
        ∃ p, Nearest (s.symbols.Owns x) p ps ∧ s.symbols.IsEntry x p v) ∧
      (s.symbols.resolveVariable? x s.scope.procedure s.scope.level = none ↔
        ∀ p ∈ ps, ¬ s.symbols.Owns x p) ∧
      (∀ q, s.symbols.resolveProcedure? x s.scope.procedure = some q ↔
        ∃ p, Nearest (fun p => ∃ q, s.symbols.DeclaredIn x p q) p ps ∧
          s.symbols.DeclaredIn x p q) ∧
      (s.symbols.resolveProcedure? x s.scope.procedure = none ↔
        ∀ p ∈ ps, ¬ ∃ q, s.symbols.DeclaredIn x p q) := by
  obtain ⟨past, π, hmirrors⟩ := h.exists_mirrors
  have hwf := hmirrors.records.wellFormed
  obtain ⟨hpath, hlevel⟩ := hmirrors.scopes.isAt
  obtain ⟨houtward, hlength, hlast⟩ := hwf.outward_ancestry hpath (Nat.lt_succ_self _)
  obtain ⟨hvariable, hnovariable⟩ := hwf.resolveVariable?_iff hpath x
  obtain ⟨hprocedure, hnoprocedure⟩ := hwf.resolveProcedure?_iff hpath x
  rw [hlevel]
  exact ⟨_, houtward, hlength, hlast, hvariable, hnovariable, hprocedure, hnoprocedure⟩

/-- In the inner function the parameter of the outer one hides the variable of the program. -/
theorem resolves_to_nearest_nested :
    ∃ left s v ps p, Passes (Token.significant (Lexed.ofSource nestedFunctions).tokens)
        nestedFunctions left s ∧
      s.symbols.resolveVariable? "x".toList s.scope.procedure s.scope.level = some v ∧
      v.kind = .parameter ∧ v.level = 1 ∧ s.symbols.Outward s.scope.procedure ps ∧
      ps.length = 3 ∧ Nearest (s.symbols.Owns "x".toList) p ps ∧
      s.symbols.IsEntry "x".toList p v := by
  have hinner : ((start (Token.significant (Lexed.ofSource nestedFunctions).tokens)
        nestedFunctions).toOption.bind (after 28)).map
      (fun p => (p.session.scope.level,
        (p.session.symbols.resolveVariable? "x".toList p.session.scope.procedure
          p.session.scope.level).map fun v => (v.kind, v.level))) =
      some (2, some (.parameter, 1)) := by decide +kernel
  obtain ⟨p, hp, heq⟩ := exists_reachable_of_after hinner
  obtain ⟨hlevel, hfound⟩ := Prod.mk.inj heq
  obtain ⟨v, hv, hkind⟩ := Option.map_eq_some_iff.mp hfound
  obtain ⟨hparameter, hone⟩ := Prod.mk.inj hkind
  obtain ⟨ps, houtward, hlength, -, hvariable, -⟩ :=
    (Passes.reached hp).resolves_to_nearest "x".toList
  obtain ⟨o, hnearest, hentry⟩ := (hvariable v).mp hv
  rw [hlevel] at hlength
  exact ⟨_, _, v, ps, o, .reached hp, hv, hparameter, hone, houtward, hlength, hnearest, hentry⟩

end BlockLang.Parse
