import BlockLang.Grammar.Trace

/-!
# Open functions

A function is open from its header to the goal that ends it. Goals that make up a whole part of a
program close every function that they open and no other, and a move puts such goals in the place of
a goal. So at any time the goals that are left close exactly the functions that are open.
-/

namespace BlockLang.Grammar

/-- Whether an event opens or closes a function. -/
def Event.isTurn : Event → Bool
  | .enter _ _ | .leave => true
  | _ => false

/-- Whether a goal neither opens nor closes a function. -/
def Goal.isPlain : Goal → Bool
  | .functionName _ | .endOfFunction => false
  | _ => true

/-- Some goals close `n` functions that are open before them, and all that they open themselves. -/
inductive Closes : Nat → List Goal → Prop
  | nil : Closes 0 []
  | plain {n : Nat} {g : Goal} {gs : List Goal} (hg : g.isPlain = true) (h : Closes n gs) :
      Closes n (g :: gs)
  | opens {n : Nat} {r : Text} {gs : List Goal} (h : Closes (n + 1) gs) :
      Closes n (.functionName r :: gs)
  | closes {n : Nat} {gs : List Goal} (h : Closes n gs) : Closes (n + 1) (.endOfFunction :: gs)

/-- Some goals close the functions that they open and no others. -/
abbrev Balanced (gs : List Goal) : Prop := Closes 0 gs

variable {m n : Nat} {g : Goal} {gs hs new : List Goal} {ts : List Token} {es : List Event}

/-! ## Parts of a program -/

theorem Closes.append (hg : Closes m gs) (hh : Closes n hs) : Closes (m + n) (gs ++ hs) := by
  induction hg with
  | nil => simpa using hh
  | plain hg _ ih => exact .plain hg ih
  | opens _ ih => exact .opens (by simpa [Nat.add_right_comm] using ih)
  | closes _ ih => simpa [Nat.add_right_comm] using Closes.closes ih

theorem balanced_of_plain (h : gs.all Goal.isPlain = true) : Balanced gs := by
  induction gs with
  | nil => exact .nil
  | cons g gs ih =>
      obtain ⟨hg, hgs⟩ := by simpa only [List.all_cons, Bool.and_eq_true] using h
      exact .plain hg (ih hgs)

theorem balanced_functionGoals (r : Text) : Balanced (functionGoals r) := by
  have hbody : Balanced [.expect .leftParen .functionDeclaration, .parameter,
      .expect .rightParen .functionDeclaration, .expect .semicolon .headerEnd,
      .expect .beginWord .bodyStart, .declarations, .statements, .expect .endWord .bodyEnd] :=
    balanced_of_plain rfl
  exact .plain rfl (.opens (hbody.append (.closes .nil)))

/-- The goals of a part of a program that is read as a whole: those of a function declaration behind
its first word, or any among which no function begins or ends. -/
def IsPart (gs : List Goal) : Prop := gs.all Goal.isPlain = true ∨ ∃ r, gs = functionGoals r

theorem IsPart.balanced (h : IsPart gs) : Balanced gs := by
  rcases h with h | ⟨r, rfl⟩
  · exact balanced_of_plain h
  · exact balanced_functionGoals r

theorem isPart_programGoals : IsPart programGoals := .inl rfl

/-! ## Moves -/

theorem Goal.balanced_of_keep (h : g.move ts = .keep es new) : Balanced new := by
  cases g <;> simp only [Goal.move] at h <;> (repeat' split at h) <;> cases h <;>
    exact balanced_of_plain rfl

theorem Goal.balanced_of_shift (h : g.move ts = .shift es new) : Balanced new := by
  cases g <;> simp only [Goal.move] at h <;> (repeat' split at h) <;> cases h <;>
    first
      | exact balanced_functionGoals _
      | exact balanced_of_plain rfl

theorem Goal.isTurn_of_keep (hg : g.isPlain = true) (h : g.move ts = .keep es new) :
    ∀ e ∈ es, e.isTurn = false := by
  cases g <;> simp only [Goal.move] at h <;> (repeat' split at h) <;> cases h <;>
    simp_all [Event.isTurn, Goal.isPlain]

theorem Goal.isTurn_of_shift (hg : g.isPlain = true) (h : g.move ts = .shift es new) :
    ∀ e ∈ es, e.isTurn = false := by
  cases g <;> simp only [Goal.move] at h <;> (repeat' split at h) <;> cases h <;>
    simp_all [Event.isTurn, Goal.isPlain]

theorem isTurn_arrival (ts : List Token) : ∀ e ∈ arrival ts, e.isTurn = false := by
  cases ts <;> simp [arrival, Event.isTurn]

namespace Reading

variable {r : Reading}

/-- A plain goal opens and closes nothing, and what takes its place is balanced. -/
theorem step_plain (hg : g.isPlain = true) (h : step ⟨g :: gs, ts⟩ = some (es, r)) :
    (∃ new, Balanced new ∧ r.goals = new ++ gs) ∧ ∀ e ∈ es, e.isTurn = false := by
  simp only [step] at h
  split at h
  · rename_i new hm
    cases h
    exact ⟨⟨new, Goal.balanced_of_keep hm, rfl⟩, Goal.isTurn_of_keep hg hm⟩
  · rename_i told new hm
    cases h
    refine ⟨⟨new, Goal.balanced_of_shift hm, rfl⟩, fun e he => ?_⟩
    rcases List.mem_append.mp he with he | he
    · exact Goal.isTurn_of_shift hg hm e he
    · exact isTurn_arrival _ e he

/-- The name of a function opens it, once. -/
theorem step_functionName {x : Text} (h : step ⟨.functionName x :: gs, ts⟩ = some (es, r)) :
    r.goals = gs ∧ ∃ before after, es = before ++ .enter (lexeme ts) x :: after ∧
      ∀ e ∈ before ++ after, e.isTurn = false := by
  simp only [step, Goal.move] at h
  split at h
  · rename_i hm
    split at hm <;> cases hm
  · rename_i told new hm
    cases h
    split at hm <;> cases hm
    · exact ⟨rfl, [], arrival ts.tail, rfl, isTurn_arrival _⟩
    · refine ⟨rfl, [.report (.missing .identifier .functionName)], arrival ts.tail, rfl, ?_⟩
      simpa [Event.isTurn] using isTurn_arrival ts.tail

theorem step_endOfFunction :
    step ⟨.endOfFunction :: gs, ts⟩ = some ([.leave], ⟨gs, ts⟩) := rfl

end Reading

end BlockLang.Grammar
