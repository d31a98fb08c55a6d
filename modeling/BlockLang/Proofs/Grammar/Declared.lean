import BlockLang.Proofs.Analysis.Quotation

/-!
# Declared names

What a program declares is named by its lexemes, or not at all where the input has ended. A
declaration begins with a token that it does not share with any other, so that there are no more
declarations than tokens.
-/

namespace BlockLang.Grammar

/-- The names that an event declares, and the types that it gives them. -/
def Event.declared : Event → List Text
  | .declare x => [x]
  | .enter f r => [f, r]
  | .parameter x => x.toList
  | _ => []

/-- Whether an event declares something. -/
def Event.declares (e : Event) : Bool := !e.declared.isEmpty

variable {P : Text → Prop} {g : Goal} {gs new : List Goal} {ts : List Token} {es : List Event}
  {r r' : Reading}

theorem declared_arrival (ts : List Token) : ∀ e ∈ arrival ts, e.declared = [] := by
  cases ts <;> simp [arrival, Event.declared]

/-! ## Names -/

/-- All that something can be named after while a reading goes on. -/
structure Reading.Names (P : Text → Prop) (r : Reading) : Prop where
  lexeme : ∀ t ∈ r.tokens, P t.lexeme
  goal : ∀ g ∈ r.goals, ∀ x ∈ g.text?, P x
  empty : P []

theorem Goal.names_move (h : Reading.Names P ⟨g :: gs, ts⟩) :
    (∀ e ∈ (g.move ts).parts.1, ∀ x ∈ e.declared, P x) ∧
      ∀ g' ∈ (g.move ts).parts.2, ∀ x ∈ g'.text?, P x := by
  have hlex := lexeme_of_carries h.lexeme h.empty
  have hgoal := h.goal g (by simp)
  cases g <;> simp only [Goal.move] <;> (repeat' split) <;>
    simp_all [Move.parts, Event.declared, Goal.text?, functionGoals, transferGoals,
      conditionalGoals, callGoals]

theorem Reading.Names.step (h : r.Names P) (hr : r.step = some (es, r')) :
    (∀ e ∈ es, ∀ x ∈ e.declared, P x) ∧ r'.Names P := by
  obtain ⟨goals, ts⟩ := r
  cases goals with
  | nil => cases hr
  | cons g gs =>
      obtain ⟨hes, hnew⟩ := Goal.names_move h
      have hgs : ∀ g' ∈ gs, ∀ x ∈ g'.text?, P x := fun g' hg' => h.goal g' (by simp [hg'])
      have hgoals : ∀ g' ∈ (g.move ts).parts.2 ++ gs, ∀ x ∈ g'.text?, P x := fun g' hg' =>
        (List.mem_append.mp hg').elim (hnew g') (hgs g')
      simp only [Reading.step] at hr
      split at hr
      · rename_i new hm
        cases hr
        rw [hm] at hes hgoals
        exact ⟨hes, h.lexeme, hgoals, h.empty⟩
      · rename_i told new hm
        cases hr
        rw [hm] at hes hgoals
        refine ⟨fun e he => ?_, fun t ht => h.lexeme t (List.mem_of_mem_tail ht), hgoals, h.empty⟩
        rcases List.mem_append.mp he with he | he
        · exact hes e he
        · simp [declared_arrival _ e he]

/-- Everything declared is named by a lexeme, or has no name. -/
theorem declared_eventsOf (h : ∀ t ∈ ts, P t.lexeme) (h₀ : P []) :
    ∀ e ∈ eventsOf ts, ∀ x ∈ e.declared, P x := by
  have hnames : Reading.Names P ⟨programGoals, ts⟩ :=
    ⟨h, by simp [programGoals, Goal.text?], h₀⟩
  intro e he
  rcases List.mem_append.mp he with he | he
  · simp [declared_arrival _ e he]
  · exact Reading.forall_mem_trace (fun _ _ _ hr hstep => hr.step hstep) hnames e he

/-! ## Numbers -/

/-- The number of declarations that are certain to come of a goal whose first token was read. -/
def Goal.pending : Goal → Nat
  | .declaredName | .functionName _ => 1
  | _ => 0

def pendingOf : List Goal → Nat
  | [] => 0
  | g :: gs => g.pending + pendingOf gs

/-- The most declarations that a reading can still come to. -/
def Reading.declarable (r : Reading) : Nat := r.tokens.length + pendingOf r.goals

theorem pendingOf_append (gs hs : List Goal) :
    pendingOf (gs ++ hs) = pendingOf gs + pendingOf hs := by
  induction gs with
  | nil => simp [pendingOf]
  | cons g gs ih => rw [List.cons_append, pendingOf, pendingOf, ih, Nat.add_assoc]

theorem countP_declares_arrival (ts : List Token) : (arrival ts).countP Event.declares = 0 := by
  cases ts <;> rfl

/-- While the current token stays, a goal comes to what was certain to come of it. -/
theorem Goal.pending_of_keep (h : g.move ts = .keep es new) :
    es.countP Event.declares + pendingOf new ≤ g.pending := by
  cases g <;> simp only [Goal.move] at h <;> (repeat' split at h) <;> cases h <;>
    simp [Event.declares, Event.declared, pendingOf, Goal.pending]

/-- A consumed token pays for a declaration that was not certain before. -/
theorem Goal.pending_of_shift (h : g.move ts = .shift es new) :
    es.countP Event.declares + pendingOf new + ts.tail.length ≤ g.pending + ts.length := by
  cases ts <;> cases g <;> simp only [Goal.move] at h <;> (repeat' split at h) <;> cases h <;>
    simp_all [Event.declares, Event.declared, pendingOf, Goal.pending, kind?, functionGoals,
      transferGoals, conditionalGoals, callGoals] <;> omega

theorem Reading.declarable_of_step (h : r.step = some (es, r')) :
    es.countP Event.declares + r'.declarable ≤ r.declarable := by
  obtain ⟨goals, ts⟩ := r
  cases goals with
  | nil => cases h
  | cons g gs =>
      simp only [step] at h
      split at h
      · rename_i told new hm
        cases h
        have hpending := Goal.pending_of_keep hm
        simp only [declarable, pendingOf_append, pendingOf]
        omega
      · rename_i told new hm
        cases h
        have hpending := Goal.pending_of_shift hm
        simp only [declarable, pendingOf_append, pendingOf, List.countP_append,
          countP_declares_arrival]
        omega

theorem Reading.countP_declares_trace (r : Reading) :
    r.trace.countP Event.declares ≤ r.declarable := by
  induction r using Reading.stepInduction with
  | h r ih =>
      cases hr : r.step with
      | none => simp [trace_of_end hr]
      | some s =>
          obtain ⟨es, r'⟩ := s
          have hstep := declarable_of_step hr
          have hrest := ih es r' hr
          rw [trace_of_step hr, List.countP_append]
          omega

/-- There are no more declarations than tokens. -/
theorem countP_declares_eventsOf (ts : List Token) :
    (eventsOf ts).countP Event.declares ≤ ts.length := by
  rw [eventsOf, List.countP_append, countP_declares_arrival, Nat.zero_add]
  exact Reading.countP_declares_trace ⟨programGoals, ts⟩

end BlockLang.Grammar
