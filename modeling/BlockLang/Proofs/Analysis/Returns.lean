import BlockLang.Proofs.Analysis.LineTracking
import BlockLang.Proofs.Grammar.Balance

/-!
# Returns

A parse enters a scope for each function that its goals open and returns from it when they close it.
A part of a program that was read through leaves the scopes as it found them, whatever is still to
be read.
-/

namespace BlockLang

open Grammar (Balanced Closes Event Goal Reading)
open Relation (ReflTransGen)

namespace Session

variable {s t : Session}

/-! ## Turns -/

/-- The current scope and those around it. -/
def scopes (s : Session) : List Scope := s.scope :: s.outer

theorem scopes_noteIf (s : Session) (b : Bool) (f : ScopeFault) :
    (s.noteIf b f).scopes = s.scopes := by
  unfold noteIf
  split <;> rfl

theorem symbols_noteIf (s : Session) (b : Bool) (f : ScopeFault) :
    (s.noteIf b f).symbols = s.symbols := by
  unfold noteIf
  split <;> rfl

theorem symbols_leave (s : Session) : s.leave.symbols = s.symbols := by
  unfold leave
  split <;> rfl

theorem scopes_perform {e : Event} (h : s.perform e = .ok t) (he : e.isTurn = false) :
    t.scopes = s.scopes := by
  cases e with
  | reach u =>
      obtain ⟨c, -, rfl⟩ := perform_reach h
      rfl
  | report f => cases h; rfl
  | declare x =>
      cases h
      rw [declare_eq]
      exact scopes_noteIf ..
  | use x => cases h; exact scopes_noteIf ..
  | call f => cases h; exact scopes_noteIf ..
  | enter f r => cases he
  | parameter x => cases h; rfl
  | leave => cases he

theorem scopes_performAll {es : List Event} (h : s.performAll es = .ok t)
    (hes : ∀ e ∈ es, e.isTurn = false) : t.scopes = s.scopes :=
  performAll_of_perform (R := fun s t => t.scopes = s.scopes) (fun _ => rfl)
    (fun _ _ _ h k => k.trans h) (fun _ _ _ he h => scopes_perform h he) hes h

theorem exists_scopes_enter (s : Session) (f r : Text) :
    ∃ c, (s.enter f r).scopes = c :: s.scopes := ⟨_, rfl⟩

theorem scopes_leave (h : s.outer ≠ []) : s.leave.scopes = s.outer := by
  unfold leave
  cases ho : s.outer with
  | nil => exact absurd ho h
  | cons o os => rfl

end Session

namespace Parse

variable {p q : Parse}

/-! ## Steps -/

/-- A step opens or closes a function as the goals do. What lies below the functions that the goals
will close stays as it is. -/
theorem Steps.closes (h : p.Steps q) {n : Nat} (hg : Closes n p.reading.goals)
    (hn : n ≤ p.session.outer.length) : ∃ m, Closes m q.reading.goals ∧
      m ≤ q.session.outer.length ∧ q.session.scopes.drop m = p.session.scopes.drop n := by
  obtain ⟨es, hr, hs⟩ := steps_iff.mp h
  obtain ⟨⟨goals, ts⟩, s⟩ := p
  obtain ⟨r, t⟩ := q
  dsimp only at hr hs hg hn ⊢
  -- only the name of a function and the end of one touch the scopes
  cases hg with
  | nil => cases hr
  | plain hplain hrest =>
      obtain ⟨⟨new, hnew, hgoals⟩, hes⟩ := Reading.step_plain hplain hr
      have hscopes := Session.scopes_performAll hs hes
      refine ⟨n, ?_, ?_, by rw [hscopes]⟩
      · rw [hgoals]
        simpa using hnew.append hrest
      · rw [(List.cons.inj hscopes).2]
        exact hn
  | opens hrest =>
      obtain ⟨hgoals, before, after, rfl, hes⟩ := Reading.step_functionName hr
      obtain ⟨u, hu, hs⟩ := Session.performAll_append_eq_ok.mp hs
      obtain ⟨v, hv, hs⟩ := Session.performAll_cons_eq_ok.mp hs
      cases hv
      have hbefore := Session.scopes_performAll hu fun e he => hes e (by simp [he])
      have hafter := Session.scopes_performAll hs fun e he => hes e (by simp [he])
      obtain ⟨c, hc⟩ := u.exists_scopes_enter _ _
      have hscopes : t.scopes = c :: s.scopes := by rw [hafter, hc, hbefore]
      refine ⟨n + 1, hgoals ▸ hrest, ?_, by rw [hscopes, List.drop_succ_cons]⟩
      rw [(List.cons.inj hscopes).2]
      simpa [Session.scopes] using hn
  | @closes n gs hrest =>
      rw [Reading.step_endOfFunction] at hr
      cases hr
      obtain ⟨u, hu, hs⟩ := Session.performAll_cons_eq_ok.mp hs
      cases hu
      cases hs
      have hne : s.outer ≠ [] := by
        intro hnil
        simp [hnil] at hn
      have hscopes := Session.scopes_leave hne
      refine ⟨n, hrest, ?_, by rw [hscopes]; rfl⟩
      have hlen := congrArg List.length hscopes
      simp only [Session.scopes, List.length_cons] at hlen
      omega

theorem closes_of_reaches (h : ReflTransGen Steps p q) {n : Nat} (hg : Closes n p.reading.goals)
    (hn : n ≤ p.session.outer.length) : ∃ m, Closes m q.reading.goals ∧
      m ≤ q.session.outer.length ∧ q.session.scopes.drop m = p.session.scopes.drop n := by
  -- the number of functions to close changes with the steps, the scopes below them do not
  induction h with
  | refl => exact ⟨n, hg, hn, rfl⟩
  | tail _ hstep ih =>
      obtain ⟨m, hm, hlen, hscopes⟩ := ih
      obtain ⟨k, hk, hlen', hscopes'⟩ := hstep.closes hm hlen
      exact ⟨k, hk, hlen', hscopes'.trans hscopes⟩

/-- A part of a program that was read through leaves the scopes as it found them. -/
theorem scopes_of_worked_off (hg : Balanced p.reading.goals) (h : ReflTransGen Steps p q)
    (hq : q.reading.goals = []) : q.session.scopes = p.session.scopes := by
  obtain ⟨m, hm, -, hscopes⟩ := closes_of_reaches h hg (Nat.zero_le _)
  rw [hq] at hm
  cases hm
  exact hscopes

/-! ## Work above other goals -/

/-- A parse with some more goals below its own. -/
def above (p : Parse) (rest : List Goal) : Parse :=
  ⟨⟨p.reading.goals ++ rest, p.reading.tokens⟩, p.session⟩

/-- What lies below the goals does not matter until they are worked off. -/
theorem Steps.above (h : p.Steps q) (rest : List Goal) : (p.above rest).Steps (q.above rest) := by
  obtain ⟨es, hr, hs⟩ := steps_iff.mp h
  refine steps_iff.mpr ⟨es, ?_, hs⟩
  obtain ⟨⟨goals, ts⟩, s⟩ := p
  obtain ⟨r, t⟩ := q
  dsimp only [Parse.above] at hr ⊢
  cases goals with
  | nil => cases hr
  | cons g gs =>
      simp only [List.cons_append, Reading.step] at hr ⊢
      cases hm : g.move ts <;> rw [hm] at hr <;> cases hr <;> simp

theorem reaches_above (h : ReflTransGen Steps p q) (rest : List Goal) :
    ReflTransGen Steps (p.above rest) (q.above rest) := by
  induction h with
  | refl => exact .refl
  | tail _ hstep ih => exact .tail ih (hstep.above rest)

end Parse

end BlockLang
