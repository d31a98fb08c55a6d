import BlockLang.Grammar.Trace

/-!
# Headers

The header of a function begins with its name. Until the place of its parameter is come to, nothing
but tokens can be expected, so that no other header begins and nothing is declared. So at any time it
can be told from the goals whether a header is open in which the parameter is still to come.
-/

namespace BlockLang.Grammar

/-- Whether an event only tells of tokens: of one that is reached or of one that does not fit. -/
def Event.isQuiet : Event → Bool
  | .reach _ | .report _ => true
  | _ => false

/-- Whether an event belongs to a header. -/
def Event.isHeader : Event → Bool
  | .enter _ _ | .parameter _ => true
  | _ => false

def Goal.isHeader : Goal → Bool
  | .functionName _ | .parameter => true
  | _ => false

/-- Some goals make up whole headers, the first of which may be open: then its name was read, and its
parameter is still to come. -/
inductive Heads : Bool → List Goal → Prop
  | nil : Heads false []
  | other {g : Goal} {gs : List Goal} (hg : g.isHeader = false) (h : Heads false gs) :
      Heads false (g :: gs)
  | name {r : Text} {gs : List Goal} (h : Heads true gs) : Heads false (.functionName r :: gs)
  | expect {k : TokenKind} {p : Place} {gs : List Goal} (h : Heads true gs) :
      Heads true (.expect k p :: gs)
  | parameter {gs : List Goal} (h : Heads false gs) : Heads true (.parameter :: gs)

variable {b : Bool} {g : Goal} {gs hs new : List Goal} {ts : List Token} {es : List Event}

theorem Heads.append (hg : Heads b gs) (hh : Heads false hs) : Heads b (gs ++ hs) := by
  induction hg with
  | nil => exact hh
  | other hg _ ih => exact .other hg ih
  | name _ ih => exact .name ih
  | expect _ ih => exact .expect ih
  | parameter _ ih => exact .parameter ih

theorem heads_of_other (h : ∀ g ∈ gs, g.isHeader = false) : Heads false gs := by
  induction gs with
  | nil => exact .nil
  | cons g gs ih =>
      rw [List.forall_mem_cons] at h
      exact .other h.1 (ih h.2)

theorem heads_functionGoals (r : Text) : Heads false (functionGoals r) := by
  have hbody : Heads false [.expect .rightParen .functionDeclaration, .expect .semicolon .headerEnd,
      .expect .beginWord .bodyStart, .declarations, .statements, .expect .endWord .bodyEnd,
      .endOfFunction] := heads_of_other (by decide)
  exact .other rfl (.name (.expect (.parameter hbody)))

theorem heads_programGoals : Heads false programGoals := heads_of_other (by decide)

/-! ## Moves -/

theorem Goal.heads_of_keep (h : g.move ts = .keep es new) : Heads false new := by
  cases g <;> simp only [Goal.move] at h <;> (repeat' split at h) <;> cases h <;>
    exact heads_of_other (by decide)

theorem Goal.heads_of_shift (h : g.move ts = .shift es new) : Heads false new := by
  cases g <;> simp only [Goal.move] at h <;> (repeat' split at h) <;> cases h <;>
    first
      | exact heads_functionGoals _
      | exact heads_of_other (by decide)

theorem Goal.isHeader_of_keep (hg : g.isHeader = false) (h : g.move ts = .keep es new) :
    ∀ e ∈ es, e.isHeader = false := by
  cases g <;> simp only [Goal.move] at h <;> (repeat' split at h) <;> cases h <;>
    simp_all [Event.isHeader, Goal.isHeader]

theorem Goal.isHeader_of_shift (hg : g.isHeader = false) (h : g.move ts = .shift es new) :
    ∀ e ∈ es, e.isHeader = false := by
  cases g <;> simp only [Goal.move] at h <;> (repeat' split at h) <;> cases h <;>
    simp_all [Event.isHeader, Goal.isHeader]

theorem isQuiet_arrival (ts : List Token) : ∀ e ∈ arrival ts, e.isQuiet = true := by
  cases ts <;> simp [arrival, Event.isQuiet]

theorem Event.isHeader_of_isQuiet {e : Event} (h : e.isQuiet = true) : e.isHeader = false := by
  cases e <;> first | rfl | cases h

/-! ## Steps -/

namespace Reading

variable {r : Reading}

/-- Outside of headers, nothing of a header is told of. -/
theorem step_other (hg : g.isHeader = false) (h : step ⟨g :: gs, ts⟩ = some (es, r)) :
    (∃ new, Heads false new ∧ r.goals = new ++ gs) ∧ ∀ e ∈ es, e.isHeader = false := by
  simp only [step] at h
  split at h
  · rename_i new hm
    cases h
    exact ⟨⟨new, Goal.heads_of_keep hm, rfl⟩, Goal.isHeader_of_keep hg hm⟩
  · rename_i told new hm
    cases h
    refine ⟨⟨new, Goal.heads_of_shift hm, rfl⟩, fun e he => ?_⟩
    rcases List.mem_append.mp he with he | he
    · exact Goal.isHeader_of_shift hg hm e he
    · exact Event.isHeader_of_isQuiet (isQuiet_arrival _ e he)

theorem step_expect {k : TokenKind} {p : Place} (h : step ⟨.expect k p :: gs, ts⟩ = some (es, r)) :
    r.goals = gs ∧ ∀ e ∈ es, e.isQuiet = true := by
  by_cases hk : kind? ts = some k
  · simp only [step, Goal.move, if_pos hk] at h
    cases h
    exact ⟨rfl, isQuiet_arrival _⟩
  · simp only [step, Goal.move, if_neg hk] at h
    cases h
    exact ⟨rfl, List.forall_mem_cons.mpr ⟨rfl, isQuiet_arrival _⟩⟩

/-- The name opens the header. -/
theorem step_name {x : Text} (h : step ⟨.functionName x :: gs, ts⟩ = some (es, r)) :
    r.goals = gs ∧ ∃ before after, es = before ++ .enter (lexeme ts) x :: after ∧
      ∀ e ∈ before ++ after, e.isQuiet = true := by
  by_cases hk : kind? ts = some .identifier
  · simp only [step, Goal.move, if_pos hk] at h
    cases h
    exact ⟨rfl, [], arrival ts.tail, rfl, isQuiet_arrival _⟩
  · simp only [step, Goal.move, if_neg hk] at h
    cases h
    refine ⟨rfl, [.report (.missing .identifier .functionName)], arrival ts.tail, rfl, ?_⟩
    exact List.forall_mem_cons.mpr ⟨rfl, isQuiet_arrival _⟩

/-- At the place of the parameter there is a name, or it is reported that there is none. -/
theorem step_parameter (h : step ⟨.parameter :: gs, ts⟩ = some (es, r)) :
    r.goals = gs ∧ (es = .parameter (some (lexeme ts)) :: arrival ts.tail ∨
      es = .report (.missingParameter (found ts)) :: .parameter none :: arrival ts.tail) := by
  by_cases hk : kind? ts = some .identifier
  · simp only [step, Goal.move, if_pos hk] at h
    cases h
    exact ⟨rfl, .inl rfl⟩
  · simp only [step, Goal.move, if_neg hk] at h
    cases h
    exact ⟨rfl, .inr rfl⟩

end Reading

end BlockLang.Grammar
