import BlockLang.Proofs.Grammar.Alikeness

/-!
# The extent of a reading

A reading makes its tokens the current one in order, without leaving any out, up to the place where
it ends. That place depends on the kinds of the tokens alone.
-/

namespace BlockLang.Grammar

open List (Forall₂)

/-! ## Tokens that are reached -/

def Event.reached? : Event → Option Token
  | .reach t => some t
  | _ => none

/-- The tokens that some events make the current one. -/
def reachedIn (es : List Event) : List Token := es.filterMap Event.reached?

@[simp] theorem reachedIn_append (es fs : List Event) :
    reachedIn (es ++ fs) = reachedIn es ++ reachedIn fs := List.filterMap_append

@[simp] theorem reachedIn_reach (t : Token) (es : List Event) :
    reachedIn (.reach t :: es) = t :: reachedIn es := rfl

theorem reachedIn_arrival_append_tail (ts : List Token) :
    reachedIn (arrival ts) ++ ts.tail = ts := by
  cases ts <;> rfl

theorem reachedIn_cons_of_not {e : Event} (h : e.isReach = false) (es : List Event) :
    reachedIn (e :: es) = reachedIn es := by
  cases e with
  | reach t => cases h
  | _ => rfl

theorem reachedIn_eq_nil {es : List Event} (h : ∀ e ∈ es, e.isReach = false) :
    reachedIn es = [] := by
  induction es with
  | nil => rfl
  | cons e es ih =>
      rw [reachedIn_cons_of_not (h e (by simp))]
      exact ih fun e he => h e (by simp [he])

namespace Reading

/-! ## The end of a reading -/

/-- The tokens that are left when no goal is. -/
def rest (r : Reading) : List Token :=
  match _h : r.step with
  | none => r.tokens
  | some (_, s) => s.rest
termination_by r.size
decreasing_by exact size_lt_of_step _h

variable {R S : Text → Text → Prop} {r s : Reading} {es : List Event}

theorem rest_of_end (h : r.step = none) : r.rest = r.tokens := by
  rw [rest]
  split
  · rfl
  · simp_all

theorem rest_of_step (h : r.step = some (es, s)) : r.rest = s.rest := by
  rw [rest]
  split
  · simp_all
  · rename_i fs s' h'
    obtain ⟨rfl, rfl⟩ : fs = es ∧ s' = s := by simpa [h'] using h
    rfl

theorem rest_isSuffix (r : Reading) : r.rest <:+ r.tokens := by
  induction r using stepInduction with
  | h r ih =>
      cases hr : r.step with
      | none => simp [rest_of_end hr]
      | some x =>
          obtain ⟨es, r'⟩ := x
          rw [rest_of_step hr]
          exact (ih es r' hr).trans (isSuffix_of_step hr)

/-- From the token behind the current one on, a reading reaches all that it does not leave behind
its last one. -/
theorem reachedIn_trace (r : Reading) : reachedIn r.trace ++ r.rest.tail = r.tokens.tail := by
  induction r using stepInduction with
  | h r ih =>
      cases hr : r.step with
      | none => rw [trace_of_end hr, rest_of_end hr, reachedIn, List.filterMap_nil, List.nil_append]
      | some x =>
          obtain ⟨es, r'⟩ := x
          rw [trace_of_step hr, rest_of_step hr, reachedIn_append, List.append_assoc, ih es r' hr]
          obtain ⟨told, htold, ⟨rfl, htokens⟩ | ⟨rfl, htokens⟩⟩ := step_eq_some hr
          · rw [reachedIn_eq_nil htold, htokens, List.nil_append]
          · rw [reachedIn_append, reachedIn_eq_nil htold, htokens, List.nil_append,
              reachedIn_arrival_append_tail]

theorem Alike.rest (h : r.Alike R S s) (h₀ : R [] [])
    (h₁ : R "end of input".toList "end of input".toList) :
    Forall₂ (Token.Alike R S) r.rest s.rest := by
  induction r using stepInduction generalizing s with
  | h r ih =>
      have hstep := h.step h₀ h₁
      generalize hr : r.step = x at hstep
      generalize hs : s.step = y at hstep
      cases hstep with
      | none =>
          rw [rest_of_end hr, rest_of_end hs]
          exact h.tokens
      | some hab =>
          rw [rest_of_step hr, rest_of_step hs]
          exact ih _ _ hr hab.2

end Reading

/-! ## The end of a program -/

/-- A token of which nothing but the kind is known. -/
def blankToken (k : TokenKind) : Token := ⟨[], k, 0⟩

/-- The position at which the reading of a program ends, given the kinds of its tokens. -/
def endPosition (kinds : List TokenKind) : Nat :=
  kinds.length - (Reading.rest ⟨programGoals, kinds.map blankToken⟩).length

theorem alike_blankTokens (ts : List Token) : Forall₂ (Token.Alike (fun _ _ => True)
    fun _ _ => True) ts ((ts.map (·.kind)).map blankToken) := by
  rw [List.map_map, List.forall₂_map_right_iff, List.forall₂_same]
  exact fun t _ => ⟨rfl, trivial, fun _ => trivial⟩

variable (ts : List Token)

theorem length_rest_add_endPosition :
    (Reading.rest ⟨programGoals, ts⟩).length + endPosition (ts.map (·.kind)) = ts.length := by
  have halike : Reading.Alike (fun _ _ => True) (fun _ _ => True) ⟨programGoals, ts⟩
      ⟨programGoals, (ts.map (·.kind)).map blankToken⟩ :=
    ⟨programGoals_alike _, alike_blankTokens ts⟩
  have hlength := (halike.rest trivial trivial).length_eq
  have hle := (Reading.rest_isSuffix ⟨programGoals, ts⟩).length_le
  rw [endPosition, List.length_map, ← hlength]
  exact Nat.add_sub_of_le hle

theorem rest_eq_drop :
    Reading.rest ⟨programGoals, ts⟩ = ts.drop (endPosition (ts.map (·.kind))) := by
  have hsuffix := List.suffix_iff_eq_drop.mp (Reading.rest_isSuffix ⟨programGoals, ts⟩)
  rwa [← length_rest_add_endPosition ts, Nat.add_sub_cancel_left] at hsuffix

/-- The tokens of a program are reached in order, up to the one at which the reading ends. -/
theorem reachedIn_eventsOf :
    reachedIn (eventsOf ts) = ts.take (endPosition (ts.map (·.kind)) + 1) := by
  have htrace := Reading.reachedIn_trace ⟨programGoals, ts⟩
  rw [rest_eq_drop, List.tail_drop] at htrace
  have hall : reachedIn (eventsOf ts) ++ ts.drop (endPosition (ts.map (·.kind)) + 1) = ts := by
    rw [eventsOf, reachedIn_append, List.append_assoc, htrace, reachedIn_arrival_append_tail]
  conv at hall => rhs; rw [← List.take_append_drop (endPosition (ts.map (·.kind)) + 1) ts]
  exact List.append_cancel_right hall

end BlockLang.Grammar
