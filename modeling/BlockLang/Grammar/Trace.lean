import BlockLang.Grammar.Goal

/-!
# Traces

Reading a program means to work off a stack of goals. Each step replaces the top goal by the goals
of its move and consumes at most one token; the trace collects what the steps tell of. A step that
consumes nothing makes the goals lighter, and a token is worth more than any goals that its
consumption can add, so that every trace is finite.
-/

namespace BlockLang.Grammar

/-- The goals to be worked off and the tokens that are left, the current one first. -/
structure Reading where
  goals : List Goal
  tokens : List Token
  deriving DecidableEq, Repr

/-- Tells that the first of the tokens becomes the current one. -/
def arrival : List Token → List Event
  | [] => []
  | t :: _ => [.reach t]

namespace Reading

/-- One step, with what it tells of; `none` when no goal is left. -/
def step : Reading → Option (List Event × Reading)
  | ⟨[], _⟩ => none
  | ⟨g :: gs, ts⟩ =>
    match g.move ts with
    | .keep es new => some (es, ⟨new ++ gs, ts⟩)
    | .shift es new => some (es ++ arrival ts.tail, ⟨new ++ gs, ts.tail⟩)

/-! ## Every step makes progress -/

/-- The weight of a goal exceeds that of the goals that replace it while the token stays. -/
def weight : Goal → Nat
  | .factor => 2
  | .declarations => 3
  | .term => 4
  | .expression => 6
  | .statement => 9
  | .statements => 11
  | _ => 1

def totalWeight : List Goal → Nat
  | [] => 0
  | g :: gs => weight g + totalWeight gs

/-- What is left to do: the weight of the goals, and for each token more than it can add to that. -/
def size (r : Reading) : Nat := 34 * r.tokens.length + totalWeight r.goals

theorem totalWeight_append (gs hs : List Goal) :
    totalWeight (gs ++ hs) = totalWeight gs + totalWeight hs := by
  induction gs with
  | nil => simp [totalWeight]
  | cons g gs ih => simp only [List.cons_append, totalWeight, ih]; omega

theorem weight_pos (g : Goal) : 0 < weight g := by
  cases g <;> simp [weight]

/-- Without consuming a token, a goal is replaced by lighter ones. -/
theorem totalWeight_lt_of_keep {g : Goal} {ts : List Token} {es : List Event} {new : List Goal}
    (h : g.move ts = .keep es new) : totalWeight new < weight g := by
  cases g <;> simp only [Goal.move] at h <;> (repeat' split at h) <;> cases h <;>
    simp [totalWeight, weight]

/-- Consuming a token, a goal is replaced by goals that are lighter than the token. -/
theorem totalWeight_lt_of_shift {g : Goal} {ts : List Token} {es : List Event} {new : List Goal}
    (h : g.move ts = .shift es new) : totalWeight new < 34 ∧ (ts = [] → new = []) := by
  cases g <;> simp only [Goal.move] at h <;> (repeat' split at h) <;> cases h <;>
    refine ⟨by simp [totalWeight, weight, functionGoals, transferGoals, conditionalGoals,
      callGoals], ?_⟩ <;>
    rintro rfl <;> simp_all [kind?]

theorem size_lt_of_step {r s : Reading} {es : List Event} (h : r.step = some (es, s)) :
    s.size < r.size := by
  obtain ⟨goals, ts⟩ := r
  cases goals with
  | nil => simp [step] at h
  | cons g gs =>
    simp only [step] at h
    split at h
    next new hm =>
      cases h
      have := totalWeight_lt_of_keep hm
      simp only [size, totalWeight_append, totalWeight]
      omega
    next new hm =>
      cases h
      have ⟨hw, hn⟩ := totalWeight_lt_of_shift hm
      have := weight_pos g
      cases ts with
      | nil => simp [size, hn rfl, totalWeight]; omega
      | cons t ts =>
        simp only [size, totalWeight_append, totalWeight, List.tail_cons, List.length_cons]
        omega

/-- All that is told of from here on. -/
def trace (r : Reading) : List Event :=
  match _h : r.step with
  | none => []
  | some (es, s) => es ++ s.trace
termination_by r.size
decreasing_by exact size_lt_of_step _h

theorem trace_nil (ts : List Token) : trace ⟨[], ts⟩ = [] := by
  rw [trace]
  rfl

theorem trace_of_keep {g : Goal} {gs new : List Goal} {ts : List Token} {es : List Event}
    (h : g.move ts = .keep es new) :
    trace ⟨g :: gs, ts⟩ = es ++ trace ⟨new ++ gs, ts⟩ := by
  rw [trace]
  split <;> simp_all [step]

theorem trace_of_shift {g : Goal} {gs new : List Goal} {ts : List Token} {es : List Event}
    (h : g.move ts = .shift es new) :
    trace ⟨g :: gs, ts⟩ = es ++ arrival ts.tail ++ trace ⟨new ++ gs, ts.tail⟩ := by
  rw [trace]
  split <;> simp_all [step]

end Reading

/-- All that is told of a program, given its significant tokens. -/
def eventsOf (ts : List Token) : List Event := arrival ts ++ (Reading.mk programGoals ts).trace

end BlockLang.Grammar
