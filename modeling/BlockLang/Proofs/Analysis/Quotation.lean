import BlockLang.Proofs.Analysis.Parse

/-!
# Texts in diagnostics

Every text that a diagnostic of a program quotes is the lexeme of a token, or one of the two texts
that stand for a token that is missing.
-/

namespace BlockLang

open Grammar (Event Goal Reading Move arrival)

/-! ## Texts of faults and events -/

def GrammarFault.text? : GrammarFault → Option Text
  | missing _ _ | invalidDeclaration | unexpectedEnd => none
  | notIdentifier x | missingParameter x | illegalStatement x | expectedFactor x
  | expectedRelation x | trailingSymbol x => some x

def ScopeFault.name : ScopeFault → Text
  | duplicateVariable x | duplicateFunction x | undefinedVariable x | undefinedFunction x => x

def ProgramFault.text? : ProgramFault → Option Text
  | grammar f => f.text?
  | scope f => some f.name

def Grammar.Event.texts : Event → List Text
  | .reach t => [t.lexeme]
  | .report f => f.text?.toList
  | .declare x | .use x | .call x => [x]
  | .enter x r => [x, r]
  | .parameter x => x.toList
  | .leave => []

/-- The text that a goal keeps for later. -/
def Grammar.Goal.text? : Goal → Option Text
  | .functionName r => some r
  | _ => none

/-! ## Texts of a reading -/

/-- The texts that a reading can come across: lexemes, and what stands for a missing token. -/
structure Grammar.Reading.Carries (P : Text → Prop) (r : Reading) : Prop where
  lexeme : ∀ t ∈ r.tokens, P t.lexeme
  goal : ∀ g ∈ r.goals, ∀ x ∈ g.text?, P x
  empty : P []
  endOfInput : P "end of input".toList

namespace Grammar

variable {P : Text → Prop}

theorem lexeme_of_carries {ts : List Token} (h : ∀ t ∈ ts, P t.lexeme) (h₀ : P []) :
    P (Grammar.lexeme ts) := by
  cases ts with
  | nil => exact h₀
  | cons t ts => exact h t (by simp)

theorem found_of_carries {ts : List Token} (h : ∀ t ∈ ts, P t.lexeme)
    (h₀ : P "end of input".toList) : P (found ts) := by
  cases ts with
  | nil => exact h₀
  | cons t ts => exact h t (by simp)

theorem texts_of_arrival {ts : List Token} (h : ∀ t ∈ ts, P t.lexeme) :
    ∀ e ∈ arrival ts, ∀ x ∈ e.texts, P x := by
  cases ts with
  | nil => simp [arrival]
  | cons t ts => simpa [arrival, Event.texts] using h t (by simp)

def Move.parts : Move → List Event × List Goal
  | .keep es new | .shift es new => (es, new)

theorem Goal.carries_move {g : Goal} {gs : List Goal} {ts : List Token}
    (h : Reading.Carries P ⟨g :: gs, ts⟩) :
    (∀ e ∈ (g.move ts).parts.1, ∀ x ∈ e.texts, P x) ∧
      ∀ g' ∈ (g.move ts).parts.2, ∀ x ∈ g'.text?, P x := by
  have hlex := lexeme_of_carries h.lexeme h.empty
  have hfound := found_of_carries h.lexeme h.endOfInput
  have hgoal := h.goal g (by simp)
  cases g <;> simp only [Goal.move] <;> (repeat' split) <;>
    simp_all [Move.parts, Event.texts, Goal.text?, GrammarFault.text?, functionGoals,
      transferGoals, conditionalGoals, callGoals]

theorem Reading.Carries.step {r r' : Reading} {es : List Event} (h : r.Carries P)
    (hr : r.step = some (es, r')) : (∀ e ∈ es, ∀ x ∈ e.texts, P x) ∧ r'.Carries P := by
  obtain ⟨goals, ts⟩ := r
  cases goals with
  | nil => cases hr
  | cons g gs =>
      have ⟨hes, hnew⟩ := Goal.carries_move h
      have hgs : ∀ g' ∈ gs, ∀ x ∈ g'.text?, P x := fun g' hg' => h.goal g' (by simp [hg'])
      have happend : ∀ g' ∈ (g.move ts).parts.2 ++ gs, ∀ x ∈ g'.text?, P x := by
        intro g' hg'
        exact (List.mem_append.mp hg').elim (hnew g') (hgs g')
      simp only [Reading.step] at hr
      split at hr
      · rename_i told new hm
        cases hr
        rw [hm] at hes happend
        exact ⟨hes, h.lexeme, happend, h.empty, h.endOfInput⟩
      · rename_i told new hm
        cases hr
        rw [hm] at hes happend
        have htail : ∀ t ∈ ts.tail, P t.lexeme := fun t ht => h.lexeme t (List.mem_of_mem_tail ht)
        refine ⟨fun e he => ?_, htail, happend, h.empty, h.endOfInput⟩
        rcases List.mem_append.mp he with he | he
        · exact hes e he
        · exact texts_of_arrival htail e he

theorem Reading.Carries.trace {r : Reading} (h : r.Carries P) :
    ∀ e ∈ r.trace, ∀ x ∈ e.texts, P x :=
  Reading.forall_mem_trace (fun _ _ _ hr hstep => hr.step hstep) h

theorem texts_of_eventsOf {ts : List Token} (h : ∀ t ∈ ts, P t.lexeme) (h₀ : P [])
    (h₁ : P "end of input".toList) : ∀ e ∈ eventsOf ts, ∀ x ∈ e.texts, P x := by
  have hr : Reading.Carries P ⟨programGoals, ts⟩ := ⟨h, by simp [programGoals, Goal.text?], h₀, h₁⟩
  intro e he
  exact (List.mem_append.mp he).elim (texts_of_arrival h e) (hr.trace e)

end Grammar

/-! ## Texts of a session -/

namespace Session

variable {P : Text → Prop}

/-- All that the diagnostics of a session quote. -/
def Quotes (P : Text → Prop) (s : Session) : Prop := ∀ d ∈ s.errors, ∀ x ∈ d.fault.text?, P x

theorem Quotes.note {s : Session} (h : s.Quotes P) {f : ProgramFault} (hf : ∀ x ∈ f.text?, P x) :
    (s.note f).Quotes P := by
  intro d hd
  rcases Array.mem_push.mp hd with hd | rfl
  · exact h d hd
  · exact hf

theorem Quotes.noteIf {s : Session} (h : s.Quotes P) (b : Bool) {f : ScopeFault} (hf : P f.name) :
    (s.noteIf b f).Quotes P := by
  unfold Session.noteIf
  split
  · exact h.note (by simpa [ProgramFault.text?] using hf)
  · exact h

theorem Quotes.perform {s t : Session} {e : Event} (h : s.Quotes P) (he : ∀ x ∈ e.texts, P x)
    (ht : s.perform e = .ok t) : t.Quotes P := by
  cases e with
  | reach u =>
      obtain ⟨c, -, rfl⟩ := perform_reach ht
      exact h
  | report f =>
      cases ht
      exact h.note (by simpa [ProgramFault.text?, Event.texts] using he)
  | declare x =>
      cases ht
      rw [declare_eq]
      refine Quotes.noteIf ?_ _ (he x (by simp [Event.texts]))
      exact h
  | use x =>
      cases ht
      exact h.noteIf _ (he x (by simp [Event.texts]))
  | call x =>
      cases ht
      exact h.noteIf _ (he x (by simp [Event.texts]))
  | enter x r =>
      cases ht
      exact h.noteIf _ (he x (by simp [Event.texts]))
  | parameter x =>
      cases ht
      exact h
  | leave =>
      cases ht
      unfold Session.leave
      split <;> exact h

theorem Quotes.performAll {es : List Event} {s t : Session} (h : s.Quotes P)
    (hes : ∀ e ∈ es, ∀ x ∈ e.texts, P x) (ht : s.performAll es = .ok t) : t.Quotes P := by
  induction es generalizing s with
  | nil =>
      cases ht
      exact h
  | cons e es ih =>
      obtain ⟨u, hu, ht⟩ := performAll_cons_eq_ok.mp ht
      exact ih (h.perform (hes e (by simp)) hu) (fun e' he' => hes e' (by simp [he'])) ht

end Session

/-- What the diagnostics of an outcome quote are lexemes of the tokens, or stand for a token that is
missing. -/
theorem Outcome.text?_of_mem_errors {P : Text → Prop} {ts : List Token} {source : Text} {o : Outcome}
    (h : ∀ t ∈ Token.significant ts, P t.lexeme) (h₀ : P []) (h₁ : P "end of input".toList)
    (ho : Outcome.ofTokens ts source = .ok o) : ∀ d ∈ o.errors, ∀ x ∈ d.fault.text?, P x := by
  obtain ⟨s, hs, rfl⟩ := Outcome.ofTokens_eq_ok.mp ho
  have hstart : (Session.start source).Quotes P := by simp [Session.Quotes, Session.start]
  intro d hd
  exact hstart.performAll (Grammar.texts_of_eventsOf h h₀ h₁) hs d (by simpa using hd)

end BlockLang
