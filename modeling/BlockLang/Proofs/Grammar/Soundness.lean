import BlockLang.Proofs.Analysis.Parse
import BlockLang.Proofs.Grammar.Derivation

/-!
# What a reading without faults has read

A stack of goals asks for a sequence of kinds. When a reading tells of no grammatical fault, the
tokens before it are what its goals ask for.
-/

namespace BlockLang.Grammar

open TokenKind

def Event.fault? : Event → Option GrammarFault
  | .report f => some f
  | _ => none

/-- The kinds `ks` are what a goal asks for, followed by `rest`. -/
def Goal.Asks (ks rest : List TokenKind) : Goal → Prop
  | .expect k _ | .accept k _ => ks = k :: rest
  | .declarations => ∃ w, IsDeclarations w ∧ ks = w ++ rest
  | .moreDeclarations => ks = rest ∨ ∃ w, IsDeclarations w ∧ ks = semicolon :: w ++ rest
  | .declaration => ks = rest ∨ ∃ w, IsDeclaration w ∧ ks = w ++ rest
  | .declaredName | .endOfFunction => ks = rest
  | .functionName _ | .parameter | .variable => ks = identifier :: rest
  | .statements => ∃ w, IsStatements w ∧ ks = w ++ rest
  | .moreStatements => ks = rest ∨ ∃ w, IsStatements w ∧ ks = semicolon :: w ++ rest
  | .statement => ∃ w, IsStatement w ∧ ks = w ++ rest
  | .expression => ∃ w, IsExpression w ∧ ks = w ++ rest
  | .moreTerms => ks = rest ∨ ∃ w, IsExpression w ∧ ks = minus :: w ++ rest
  | .term => ∃ w, IsTerm w ∧ ks = w ++ rest
  | .moreFactors => ks = rest ∨ ∃ w, IsTerm w ∧ ks = times :: w ++ rest
  | .factor => ∃ w, IsFactor w ∧ ks = w ++ rest
  | .relation => ∃ k : TokenKind, k.isRelational ∧ ks = k :: rest
  | .endOfProgram => ks = [] ∧ rest = []

/-- The kinds `ks` are what some goals ask for one after the other, followed by `rest`. -/
def AsksAll (ks rest : List TokenKind) : List Goal → Prop
  | [] => ks = rest
  | g :: gs => ∃ mid, g.Asks ks mid ∧ AsksAll mid rest gs

theorem asksAll_append {ks rest : List TokenKind} {gs hs : List Goal} :
    AsksAll ks rest (gs ++ hs) ↔ ∃ mid, AsksAll ks mid gs ∧ AsksAll mid rest hs := by
  induction gs generalizing ks with
  | nil => simp [AsksAll]
  | cons g gs ih =>
      simp only [List.cons_append, AsksAll, ih]
      constructor
      · rintro ⟨a, ha, b, hb, hrest⟩
        exact ⟨b, ⟨a, ha, hb⟩, hrest⟩
      · rintro ⟨b, ⟨a, ha, hb⟩, hrest⟩
        exact ⟨a, ha, b, hb, hrest⟩

/-! ## Sequences of goals -/

variable {ks rest : List TokenKind}

theorem asks_declarations (h : AsksAll ks rest [.declaration, .moreDeclarations]) :
    ∃ w, IsDeclarations w ∧ ks = w ++ rest := by
  obtain ⟨mid, hd, mid', hm, rfl⟩ := h
  rcases hd with rfl | ⟨d, hd, rfl⟩ <;> rcases hm with rfl | ⟨ds, hds, rfl⟩
  · exact ⟨[], .none, rfl⟩
  · exact ⟨_, .skip hds, rfl⟩
  · exact ⟨d, .last hd, rfl⟩
  · exact ⟨_, .more hd hds, by simp⟩

theorem asks_statements (h : AsksAll ks rest [.statement, .moreStatements]) :
    ∃ w, IsStatements w ∧ ks = w ++ rest := by
  obtain ⟨mid, ⟨s, hs, rfl⟩, mid', hm, rfl⟩ := h
  rcases hm with rfl | ⟨ss, hss, rfl⟩
  · exact ⟨s, .last hs, rfl⟩
  · exact ⟨_, .more hs hss, by simp⟩

theorem asks_expression (h : AsksAll ks rest [.term, .moreTerms]) :
    ∃ w, IsExpression w ∧ ks = w ++ rest := by
  obtain ⟨mid, ⟨t, ht, rfl⟩, mid', hm, rfl⟩ := h
  rcases hm with rfl | ⟨e, he, rfl⟩
  · exact ⟨t, .term ht, rfl⟩
  · exact ⟨_, .difference ht he, by simp⟩

theorem asks_term (h : AsksAll ks rest [.factor, .moreFactors]) :
    ∃ w, IsTerm w ∧ ks = w ++ rest := by
  obtain ⟨mid, ⟨f, hf, rfl⟩, mid', hm, rfl⟩ := h
  rcases hm with rfl | ⟨t, ht, rfl⟩
  · exact ⟨f, .factor hf, rfl⟩
  · exact ⟨_, .product hf ht, by simp⟩

theorem asks_function {r : Text} (h : AsksAll ks rest (functionGoals r)) :
    ∃ w, IsDeclaration w ∧ integerWord :: ks = w ++ rest := by
  obtain ⟨_, rfl, _, rfl, _, rfl, _, rfl, _, rfl, _, rfl, _, rfl, _, ⟨ds, hds, rfl⟩, _,
    ⟨ss, hss, rfl⟩, _, rfl, _, rfl, rfl⟩ := h
  exact ⟨_, .function hds hss, by simp⟩

theorem asks_transfer {p : Place} (h : AsksAll ks rest (transferGoals p)) :
    ks = [leftParen, identifier, rightParen] ++ rest := by
  obtain ⟨_, rfl, _, rfl, _, rfl, rfl⟩ := h
  rfl

theorem asks_conditional (h : AsksAll ks rest conditionalGoals) :
    ∃ w, IsStatement w ∧ ifWord :: ks = w ++ rest := by
  obtain ⟨_, ⟨d, hd, rfl⟩, _, ⟨r, hr, rfl⟩, _, ⟨e, he, rfl⟩, _, rfl, _, ⟨s, hs, rfl⟩, _, rfl, _,
    ⟨t, ht, rfl⟩, rfl⟩ := h
  exact ⟨_, .conditional hd hr he hs ht, by simp⟩

theorem asks_call (h : AsksAll ks rest callGoals) :
    ∃ w, IsFactor w ∧ identifier :: ks = w ++ rest := by
  obtain ⟨_, rfl, _, ⟨e, he, rfl⟩, _, rfl, rfl⟩ := h
  exact ⟨_, .call he, by simp⟩

/-! ## Moves -/

theorem kinds_of_kind? {ts : List Token} {k : TokenKind} (h : kind? ts = some k) :
    kinds ts = k :: kinds ts.tail := by
  cases ts with
  | nil => cases h
  | cons t ts =>
      cases h
      rfl

variable {ts : List Token} {es : List Event} {new : List Goal}

/-- A goal that keeps the current token without a fault asks for what its new goals ask for. -/
theorem Goal.asks_of_keep {g : Goal} (h : g.move ts = .keep es new)
    (hes : es.filterMap Event.fault? = []) (hnew : AsksAll (kinds ts) rest new) :
    g.Asks (kinds ts) rest := by
  cases g with
  | expect k p | functionName r | parameter | «variable» =>
      simp only [Goal.move] at h
      split at h <;> cases h
  | accept k p | relation =>
      simp only [Goal.move] at h
      split at h <;> cases h
      cases hes
  | declarations =>
      cases h
      exact asks_declarations hnew
  | statements =>
      cases h
      exact asks_statements hnew
  | expression =>
      cases h
      exact asks_expression hnew
  | term =>
      cases h
      exact asks_term hnew
  | moreDeclarations | moreStatements | moreTerms | moreFactors =>
      simp only [Goal.move] at h
      split at h <;> cases h
      exact .inl hnew
  | declaredName | endOfFunction =>
      cases h
      exact hnew
  | declaration =>
      simp only [Goal.move] at h
      repeat' split at h
      all_goals cases h
      · cases hes
      · cases hes
      · exact .inl hnew
  | statement =>
      simp only [Goal.move] at h
      split at h <;> cases h
      · obtain ⟨_, hid, _, rfl, _, ⟨e, he, rfl⟩, rfl⟩ := hnew
        exact ⟨_, .assignment he, by simpa [Goal.Asks] using hid⟩
      · cases hes
  | factor =>
      simp only [Goal.move] at h
      repeat' split at h
      all_goals cases h
      · obtain ⟨_, hid, rfl⟩ := hnew
        exact ⟨_, .name, hid⟩
      · cases hes
  | endOfProgram =>
      simp only [Goal.move] at h
      split at h <;> cases h
      · rename_i hnil
        subst hnil
        exact ⟨rfl, hnew.symm⟩
      · cases hes

/-- A goal that consumes the current token without a fault asks for it and for what its new goals
ask for. -/
theorem Goal.asks_of_shift {g : Goal} (h : g.move ts = .shift es new)
    (hes : es.filterMap Event.fault? = []) (hnew : AsksAll (kinds ts.tail) rest new) :
    g.Asks (kinds ts) rest := by
  cases g with
  | expect k p | accept k p =>
      simp only [Goal.move] at h
      split at h <;> cases h
      · rename_i hk
        rw [kinds_of_kind? hk, hnew]
        rfl
      all_goals cases hes
  | functionName r | parameter | «variable» =>
      simp only [Goal.move] at h
      split at h <;> cases h
      · rename_i hk
        rw [kinds_of_kind? hk, hnew]
        rfl
      · cases hes
  | declarations | statements | expression | term | declaredName | endOfFunction => cases h
  | moreDeclarations =>
      simp only [Goal.move] at h
      split at h <;> cases h
      rename_i hk
      obtain ⟨w, hw, hks⟩ := asks_declarations hnew
      exact .inr ⟨w, hw, by rw [kinds_of_kind? hk, hks]; rfl⟩
  | moreStatements =>
      simp only [Goal.move] at h
      split at h <;> cases h
      rename_i hk
      obtain ⟨w, hw, hks⟩ := asks_statements hnew
      exact .inr ⟨w, hw, by rw [kinds_of_kind? hk, hks]; rfl⟩
  | moreTerms =>
      simp only [Goal.move] at h
      split at h <;> cases h
      rename_i hk
      obtain ⟨w, hw, hks⟩ := asks_expression hnew
      exact .inr ⟨w, hw, by rw [kinds_of_kind? hk, hks]; rfl⟩
  | moreFactors =>
      simp only [Goal.move] at h
      split at h <;> cases h
      rename_i hk
      obtain ⟨w, hw, hks⟩ := asks_term hnew
      exact .inr ⟨w, hw, by rw [kinds_of_kind? hk, hks]; rfl⟩
  | declaration =>
      simp only [Goal.move] at h
      split at h
      · rename_i hk
        split at h <;> cases h
        · obtain ⟨w, hw, hks⟩ := asks_function hnew
          exact .inr ⟨w, hw, by rw [kinds_of_kind? hk, hks]⟩
        · obtain ⟨_, rfl, _, hid, rfl⟩ := hnew
          exact .inr ⟨_, .variable, by rw [kinds_of_kind? hk, hid]; rfl⟩
      · cases h
  | statement =>
      simp only [Goal.move] at h
      split at h <;> cases h <;> rename_i hk
      · exact ⟨_, .read, by rw [kinds_of_kind? hk, asks_transfer hnew]; rfl⟩
      · exact ⟨_, .write, by rw [kinds_of_kind? hk, asks_transfer hnew]; rfl⟩
      · obtain ⟨w, hw, hks⟩ := asks_conditional hnew
        exact ⟨w, hw, by rw [kinds_of_kind? hk, hks]⟩
  | factor =>
      simp only [Goal.move] at h
      repeat' split at h
      all_goals cases h
      · rename_i hk _
        obtain ⟨w, hw, hks⟩ := asks_call hnew
        exact ⟨w, hw, by rw [kinds_of_kind? hk, hks]⟩
      · rename_i hk
        exact ⟨_, .number, by rw [kinds_of_kind? hk, hnew]; rfl⟩
  | relation =>
      simp only [Goal.move] at h
      split at h <;> cases h
      rename_i hany
      cases hk : kind? ts with
      | none => simp [hk] at hany
      | some k =>
          have hrel : k.isRelational = true := by simpa [hk] using hany
          exact ⟨k, hrel, by rw [kinds_of_kind? hk, hnew]⟩
  | endOfProgram =>
      simp only [Goal.move] at h
      split at h <;> cases h

/-! ## Readings -/

/-- The tokens before a reading that tells of no fault are what its goals ask for. -/
theorem Reading.asksAll {r : Reading} (h : r.trace.filterMap Event.fault? = []) :
    ∃ rest, AsksAll (kinds r.tokens) rest r.goals := by
  -- backwards along the reading: what is left after a step is known, the step adds its own goal
  induction r using Reading.stepInduction with
  | h r ih =>
      obtain ⟨goals, ts⟩ := r
      cases goals with
      | nil => exact ⟨_, rfl⟩
      | cons g gs =>
          cases hm : g.move ts with
          | keep es new =>
              have hr : Reading.step ⟨g :: gs, ts⟩ = some (es, ⟨new ++ gs, ts⟩) := by
                simp only [Reading.step, hm]
              rw [trace_of_step hr, List.filterMap_append, List.append_eq_nil_iff] at h
              obtain ⟨rest, hall⟩ := ih _ _ hr h.2
              obtain ⟨mid, hnew, hgs⟩ := asksAll_append.mp hall
              exact ⟨rest, mid, Goal.asks_of_keep hm h.1 hnew, hgs⟩
          | shift es new =>
              have hr : Reading.step ⟨g :: gs, ts⟩ =
                  some (es ++ arrival ts.tail, ⟨new ++ gs, ts.tail⟩) := by
                simp only [Reading.step, hm]
              rw [trace_of_step hr, List.append_assoc, List.filterMap_append,
                List.filterMap_append, List.append_eq_nil_iff, List.append_eq_nil_iff] at h
              obtain ⟨rest, hall⟩ := ih _ _ hr h.2.2
              obtain ⟨mid, hnew, hgs⟩ := asksAll_append.mp hall
              exact ⟨rest, mid, Goal.asks_of_shift hm h.1 hnew, hgs⟩

theorem isProgram_of_trace {ts : List Token}
    (h : (Reading.mk programGoals ts).trace.filterMap Event.fault? = []) :
    IsProgram (kinds ts) := by
  obtain ⟨rest, _, hbegin, _, ⟨ds, hds, rfl⟩, _, ⟨ss, hss, rfl⟩, _, rfl, _, ⟨rfl, rfl⟩, rfl⟩ :=
    Reading.asksAll h
  have hblock := IsProgram.block hds hss
  have hkinds : kinds ts = beginWord :: (ds ++ (ss ++ [endWord])) := hbegin
  rw [hkinds]
  simpa using hblock

end BlockLang.Grammar
