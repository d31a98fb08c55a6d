import BlockLang.Grammar.Trace

/-!
# Budgets

How many faults a program can still lead to. Every token that is left is worth seven faults, and
every goal is worth those that it can lead to while no token is consumed. Where it is certain that
the current token is consumed, its worth is not counted, so that no step exceeds the budget.
-/

namespace BlockLang.Grammar

/-- Whether an event can lead to a fault. None leads to two. -/
def Event.canFault : Event → Bool
  | .report _ | .declare _ | .use _ | .call _ | .enter _ _ => true
  | .reach _ | .parameter _ | .leave => false

/-- The most faults that some events can lead to. -/
def faultLimit (es : List Event) : Nat := es.countP Event.canFault

/-- The most faults that a goal can lead to while no token is consumed. -/
def Goal.dues : Goal → Nat
  | .moreDeclarations | .moreStatements | .moreTerms | .moreFactors | .endOfFunction => 0
  | .functionName _ | .variable => 2
  | _ => 1

def duesOf : List Goal → Nat
  | [] => 0
  | g :: gs => g.dues + duesOf gs

/-- Whether a goal fits the current token, so that it consumes it with at least one fault less than
it is due. -/
def Goal.isMet (kind : Option TokenKind) : Goal → Bool
  | .expect k _ => kind == some k
  | .variable => kind == some .identifier
  | _ => false

/-- What the first goal does not need of its dues and of the worth of the current token. -/
def credit (kind : Option TokenKind) : List Goal → Nat
  | [] => 0
  | g :: _ => if g.isMet kind then 8 else 0

/-- The most faults that a reading can still lead to. -/
def Reading.budget (r : Reading) : Nat :=
  7 * r.tokens.length + duesOf r.goals - credit (kind? r.tokens) r.goals

variable {g : Goal} {gs new : List Goal} {ts : List Token} {es : List Event} {r r' : Reading}

@[simp] theorem faultLimit_nil : faultLimit [] = 0 := rfl

@[simp] theorem faultLimit_cons (e : Event) (es : List Event) :
    faultLimit (e :: es) = faultLimit es + if e.canFault then 1 else 0 := List.countP_cons

@[simp] theorem faultLimit_append (es fs : List Event) :
    faultLimit (es ++ fs) = faultLimit es + faultLimit fs := List.countP_append

@[simp] theorem faultLimit_arrival (ts : List Token) : faultLimit (arrival ts) = 0 := by
  cases ts <;> rfl

@[simp] theorem duesOf_cons (g : Goal) (gs : List Goal) :
    duesOf (g :: gs) = g.dues + duesOf gs := rfl

@[simp] theorem duesOf_append (gs hs : List Goal) :
    duesOf (gs ++ hs) = duesOf gs + duesOf hs := by
  induction gs with
  | nil => simp [duesOf]
  | cons g gs ih => rw [List.cons_append, duesOf_cons, duesOf_cons, ih, Nat.add_assoc]

/-! ## Credits -/

theorem credit_le_append (kind : Option TokenKind) (gs hs : List Goal) :
    credit kind gs ≤ credit kind (gs ++ hs) := by
  cases gs with
  | nil => exact Nat.zero_le _
  | cons g gs => exact Nat.le_refl _

/-- A goal that fits the current token is due a fault, and there is a token. -/
theorem credit_le (gs : List Goal) (ts : List Token) :
    credit (kind? ts) gs ≤ 7 * ts.length + duesOf gs := by
  cases gs with
  | nil => exact Nat.zero_le _
  | cons g gs =>
      rw [credit]
      split
      · rename_i hmet
        have hdues : 1 ≤ g.dues := by cases g <;> simp_all [Goal.isMet, Goal.dues]
        have hts : 1 ≤ ts.length := by
          cases ts with
          | nil => cases g <;> simp_all [Goal.isMet, kind?]
          | cons t ts => simp
        rw [duesOf_cons]
        omega
      · exact Nat.zero_le _

/-! ## Moves -/

/-- While the current token stays, a goal leads to no more than it is due. -/
theorem Goal.dues_of_keep (h : g.move ts = .keep es new) :
    faultLimit es + duesOf new + credit (kind? ts) [g] ≤ g.dues + credit (kind? ts) new := by
  cases g <;> simp only [Goal.move] at h <;> (repeat' split at h) <;> cases h <;>
    simp_all [Event.canFault, duesOf, Goal.dues, credit, Goal.isMet]

/-- A consumed token pays for what a goal leads to beyond its dues. -/
theorem Goal.dues_of_shift (h : g.move ts = .shift es new) :
    faultLimit es + duesOf new + credit (kind? ts) [g] + 7 * ts.tail.length ≤
      g.dues + credit (kind? ts.tail) new + 7 * ts.length := by
  cases ts with
  | nil =>
      cases g <;> simp only [Goal.move] at h <;> (repeat' split at h) <;> cases h <;>
        simp_all [Event.canFault, duesOf, Goal.dues, credit, Goal.isMet, kind?]
  | cons t ts =>
      cases g <;> simp only [Goal.move] at h <;> (repeat' split at h) <;> cases h <;>
        simp_all [Event.canFault, duesOf, Goal.dues, credit, Goal.isMet, kind?,
          nextKind?, functionGoals, transferGoals, conditionalGoals, callGoals] <;> omega

/-! ## Steps -/

namespace Reading

/-- A step never exceeds the budget. -/
theorem budget_of_step (h : r.step = some (es, r')) : faultLimit es + r'.budget ≤ r.budget := by
  obtain ⟨goals, ts⟩ := r
  cases goals with
  | nil => cases h
  | cons g gs =>
      have hcredit : credit (kind? ts) [g] = credit (kind? ts) (g :: gs) := rfl
      simp only [step] at h
      split at h
      · rename_i told new hm
        cases h
        have hdues := Goal.dues_of_keep hm
        have hnew := credit_le_append (kind? ts) new gs
        have hle := credit_le (new ++ gs) ts
        simp only [budget, duesOf_append, duesOf_cons] at hle ⊢
        omega
      · rename_i told new hm
        cases h
        have hdues := Goal.dues_of_shift hm
        have hnew := credit_le_append (kind? ts.tail) new gs
        have hle := credit_le (new ++ gs) ts.tail
        simp only [budget, duesOf_append, duesOf_cons, faultLimit_append,
          faultLimit_arrival] at hle ⊢
        omega

/-- The whole program is worth five faults besides those of its tokens. -/
theorem budget_start (ts : List Token) : budget ⟨programGoals, ts⟩ = 7 * ts.length + 5 := rfl

end Reading

end BlockLang.Grammar
