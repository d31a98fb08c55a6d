import BlockLang.Proofs.Analysis.Returns
import BlockLang.Proofs.Analysis.Scoping

/-!
# States of a parse

What holds at every point of a parse, whatever the tokens are and whatever faults were noted before:
the scope is a procedure of the table, the procedures are nested below the main one, and no two
entries have the same identity. A parse that has come to its end is back in the main procedure.
-/

namespace BlockLang

open Grammar (Event Goal IsPart Reading arrival isPart_programGoals)
open Relation (ReflTransGen)

/-! ## Sound sessions -/

/-- A sound table with a current scope that is a procedure of it, on the level of that. -/
structure Session.Sound (s : Session) : Prop where
  symbols : s.symbols.Sound
  scope : ∃ r, s.symbols.procedure? s.scope.procedure = some r ∧ s.scope.level = r.level

namespace Session

variable {s : Session} {past : List Syntax.Occurrence} {π : List Text}

theorem Mirrors.sound (h : s.Mirrors past π) : s.Sound where
  symbols := h.records.wellFormed.sound
  scope := by
    obtain ⟨hpath, hlevel⟩ := h.scopes.isAt
    obtain ⟨k, hk, hl⟩ := h.records.wellFormed.level_eq hpath
    obtain ⟨r, hr, rfl⟩ := SymbolTable.exists_procedure_of_key? hk
    exact ⟨r, hr, hlevel.trans hl.symm⟩

end Session

namespace Parse

variable {p q : Parse} {ts left : List Token} {source : Text} {s : Session}

/-! ## Points of a parse -/

/-- The points of the parse of some significant tokens, each with the tokens that are left and the
session: before the first step, after a step, and within a step, when part of what it tells of has
been followed. -/
inductive Passes (ts : List Token) (source : Text) : List Token → Session → Prop
  | start : Passes ts source ts (Session.start source)
  | reached {p : Parse} (hp : Reachable ts source p) : Passes ts source p.reading.tokens p.session
  | within {p : Parse} {r : Reading} {told untold : List Event} {left : List Token} {s : Session}
      (hp : Reachable ts source p) (hstep : p.reading.step = some (told ++ untold, r))
      (hs : p.session.performAll told = .ok s)
      (hleft : left = p.reading.tokens ∨ left = r.tokens) : Passes ts source left s

theorem Reachable.exists_performAll (h : Reachable ts source p) :
    ∃ es, (Session.start source).performAll es = .ok p.session := by
  obtain ⟨p₀, hp₀, hreach⟩ := h
  induction hreach with
  | refl =>
      obtain ⟨s, hs, rfl⟩ := start_eq_ok hp₀
      exact ⟨_, hs⟩
  | tail _ hstep ih =>
      obtain ⟨es, hes⟩ := ih
      obtain ⟨fs, -, hfs⟩ := steps_iff.mp hstep
      exact ⟨es ++ fs, Session.performAll_append_eq_ok.mpr ⟨_, hes, hfs⟩⟩

/-- At every point of a parse the session has followed some events. -/
theorem Passes.exists_performAll (h : Passes ts source left s) :
    ∃ es, (Session.start source).performAll es = .ok s := by
  cases h with
  | start => exact ⟨[], rfl⟩
  | reached hp => exact hp.exists_performAll
  | @within p r told untold left s hp hstep hs hleft =>
      obtain ⟨es, hes⟩ := hp.exists_performAll
      exact ⟨es ++ told, Session.performAll_append_eq_ok.mpr ⟨_, hes, hs⟩⟩

theorem Passes.exists_mirrors (h : Passes ts source left s) :
    ∃ past π, s.Mirrors past π := by
  obtain ⟨es, hes⟩ := h.exists_performAll
  exact ⟨_, _, ((Session.start_mirrors source).performAll hes).mirrors⟩

theorem Reachable.isSuffix (h : Reachable ts source p) : p.reading.tokens <:+ ts := by
  obtain ⟨p₀, hp₀, hreach⟩ := h
  induction hreach with
  | refl =>
      obtain ⟨s, -, rfl⟩ := start_eq_ok hp₀
      exact List.suffix_refl _
  | tail _ hstep ih =>
      obtain ⟨es, hr, -⟩ := steps_iff.mp hstep
      exact (Reading.isSuffix_of_step hr).trans ih

theorem Passes.isSuffix (h : Passes ts source left s) : left <:+ ts := by
  cases h with
  | start => exact List.suffix_refl _
  | reached hp => exact hp.isSuffix
  | within hp hstep hs hleft =>
      rcases hleft with rfl | rfl
      · exact hp.isSuffix
      · exact (Reading.isSuffix_of_step hstep).trans hp.isSuffix

theorem Passes.exists_position (h : Passes ts source left s) :
    ∃ position ≤ ts.length, left = ts.drop position :=
  ⟨ts.length - left.length, Nat.sub_le _ _, List.suffix_iff_eq_drop.mp h.isSuffix⟩

theorem Passes.sound (h : Passes ts source left s) : s.Sound := by
  obtain ⟨past, π, hmirrors⟩ := h.exists_mirrors
  exact hmirrors.sound

/-- A program that was read through leaves the main procedure as the scope. -/
theorem Reachable.scopes_eq (h : Reachable ts source p) (hp : p.step = none) :
    p.session.scopes = [⟨SymbolTable.root, 0, false⟩] := by
  obtain ⟨p₀, hp₀, hreach⟩ := h
  obtain ⟨s, hs, rfl⟩ := start_eq_ok hp₀
  rw [scopes_of_worked_off isPart_programGoals.balanced hreach (step_eq_none_iff.mp hp)]
  exact Session.scopes_performAll hs (Grammar.isTurn_arrival ts)

/-- Where a function ends, there is a scope to return to, one level further out. -/
theorem Reachable.level_eq_of_endOfFunction (h : Reachable ts source p) {gs : List Goal}
    (hg : p.reading.goals = .endOfFunction :: gs) :
    ∃ o os, p.session.outer = o :: os ∧ p.session.scope.level = o.level + 1 := by
  obtain ⟨past, π, hmirrors⟩ := (Passes.reached h).exists_mirrors
  obtain ⟨p₀, hp₀, hreach⟩ := h
  obtain ⟨s, -, rfl⟩ := start_eq_ok hp₀
  obtain ⟨m, hm, hlen, -⟩ :=
    closes_of_reaches hreach isPart_programGoals.balanced (Nat.zero_le _)
  -- the goal closes a function, so that one is open
  rw [hg] at hm
  have hscopes := hmirrors.scopes
  generalize p.session.scope = c at hscopes ⊢
  generalize p.session.outer = os at hscopes hlen ⊢
  cases hm with
  | plain hplain => cases hplain
  | closes =>
      cases hscopes with
      | main => simp at hlen
      | inside hc ho => exact ⟨_, _, rfl, by rw [hc.level, ho.isAt.level, List.length_cons]⟩

/-- The parse after a number of steps, if it comes so far. -/
def after : Nat → Parse → Option Parse
  | 0, p => some p
  | n + 1, p =>
    match p.step with
    | some (.ok q) => after n q
    | _ => none

theorem reaches_of_after {n : Nat} (h : after n p = some q) : ReflTransGen Steps p q := by
  induction n generalizing p with
  | zero =>
      cases h
      exact .refl
  | succ n ih =>
      rw [after] at h
      split at h
      · rename_i r hr
        exact .head hr (ih h)
      · cases h

theorem exists_reachable_of_after {α : Type} {f : Parse → α} {n : Nat} {a : α}
    (h : ((start ts source).toOption.bind (after n)).map f = some a) :
    ∃ p, Reachable ts source p ∧ f p = a := by
  obtain ⟨p, hp, hf⟩ := Option.map_eq_some_iff.mp h
  obtain ⟨p₀, hp₀, hafter⟩ := Option.bind_eq_some_iff.mp hp
  cases hs : start ts source with
  | error m => simp [hs, Except.toOption] at hp₀
  | ok p₁ =>
      simp only [hs, Except.toOption, Option.some.injEq] at hp₀
      exact ⟨p, ⟨p₁, hs, hp₀ ▸ reaches_of_after hafter⟩, hf⟩

/-- At every point of a parse the position is within the tokens, and the table and the scope are
sound. Where a function ends, the level goes down by one. A part of a program that was read through
leaves the scopes as it found them, whatever is still to be read, so that a parse that has come to
its end is back in the main procedure. -/
theorem passes_sound_and_returns (ts : List Token) (source : Text) :
    (∀ left s, Passes (Token.significant ts) source left s →
      (∃ position ≤ (Token.significant ts).length, left = (Token.significant ts).drop position) ∧
        s.Sound) ∧
    (∀ p gs, Reachable (Token.significant ts) source p → p.reading.goals = .endOfFunction :: gs →
      ∃ o os, p.session.outer = o :: os ∧ p.session.scope.level = o.level + 1) ∧
    (∀ p q : Parse, IsPart p.reading.goals → ReflTransGen Steps p q → q.reading.goals = [] →
      q.session.scope = p.session.scope ∧ q.session.outer = p.session.outer ∧
        ∀ rest, ReflTransGen Steps (p.above rest) (q.above rest)) ∧
    ∀ p, Reachable (Token.significant ts) source p → p.step = none →
      p.session.scope.procedure = SymbolTable.root ∧ p.session.scope.level = 0 ∧
        p.session.outer = [] := by
  refine ⟨?_, ?_, ?_, ?_⟩
  · intro left s h
    exact ⟨h.exists_position, h.sound⟩
  · intro p gs h hg
    exact h.level_eq_of_endOfFunction hg
  · intro p q hp hpq hq
    obtain ⟨hscope, houter⟩ := List.cons.inj (scopes_of_worked_off hp.balanced hpq hq)
    exact ⟨hscope, houter, fun rest => reaches_above hpq rest⟩
  · intro p h hp
    obtain ⟨hscope, houter⟩ := List.cons.inj (h.scopes_eq hp)
    exact ⟨congrArg Scope.procedure hscope, congrArg Scope.level hscope, houter⟩

/-- A function in one of the same name, without a parameter and with an undeclared variable. -/
def nestedFunctions : Text :=
  ("begin integer x;integer function f(x);begin integer function f(7);begin x:=y end;f:=x end;" ++
    "x:=1 end").toList

theorem passes_sound_and_returns_nested :
    let ts := Token.significant (Lexed.ofSource nestedFunctions).tokens
    (∃ left s, Passes ts nestedFunctions left s ∧ s.scope.level = 2 ∧ s.errors.size = 2 ∧
      s.Sound) ∧
    ∃ p₀ p, start ts nestedFunctions = .ok p₀ ∧ ReflTransGen Steps p₀ p ∧ p.step = none ∧
      p.session.scope = p₀.session.scope ∧ p.session.scope.procedure = SymbolTable.root := by
  intro ts
  obtain ⟨hpasses, -, hreturns, hend⟩ :=
    passes_sound_and_returns (Lexed.ofSource nestedFunctions).tokens nestedFunctions
  have hinner : ((start ts nestedFunctions).toOption.bind (after 34)).map
      (fun p => (p.session.scope.level, p.session.errors.size)) = some (2, 2) := by decide +kernel
  have hlast : ((start ts nestedFunctions).toOption.bind (after 70)).map (·.reading.goals) =
      some [] := by decide +kernel
  constructor
  · obtain ⟨p, hp, heq⟩ := exists_reachable_of_after hinner
    obtain ⟨hlevel, herrors⟩ := Prod.mk.inj heq
    exact ⟨_, _, .reached hp, hlevel, herrors, (hpasses _ _ (.reached hp)).2⟩
  · obtain ⟨p, hp, hgoals⟩ := exists_reachable_of_after hlast
    have hstep := step_eq_none_iff.mpr hgoals
    have hroot := (hend p hp hstep).1
    obtain ⟨p₀, hp₀, hreach⟩ := hp
    have hpart : IsPart p₀.reading.goals := by
      obtain ⟨s, -, rfl⟩ := start_eq_ok hp₀
      exact isPart_programGoals
    exact ⟨p₀, p, hp₀, hreach, hstep, (hreturns p₀ p hpart hreach hgoals).1, hroot⟩

end Parse

end BlockLang
