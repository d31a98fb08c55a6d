import BlockLang.Proofs.Analysis.Parse
import BlockLang.Proofs.Cursor.Lockstep

/-!
# Lines of diagnostics

The analysis of a source text without lexical faults meets every token where the source text has it,
and each of its diagnostics carries the line of the token that is current when it is noted.
-/

namespace BlockLang

open Grammar (Event Goal Move Reading arrival programGoals)

/-! ## Faults of a session -/

namespace Session

/-- A session stays where it is in the source text, and all that it notes is on the current line. -/
structure Grows (s t : Session) : Prop where
  cursor : t.cursor = s.cursor
  errors : ∃ new : List (Diagnostic ProgramFault), t.errors.toList = s.errors.toList ++ new ∧
    ∀ d ∈ new, d.line = s.cursor.line

theorem Grows.refl (s : Session) : s.Grows s := ⟨rfl, [], by simp, by simp⟩

theorem Grows.trans {s t u : Session} (h : s.Grows t) (k : t.Grows u) : s.Grows u := by
  obtain ⟨new, hnew, hline⟩ := h.errors
  obtain ⟨more, hmore, hline'⟩ := k.errors
  refine ⟨k.cursor.trans h.cursor, new ++ more, by rw [hmore, hnew, List.append_assoc], ?_⟩
  intro d hd
  rcases List.mem_append.mp hd with hd | hd
  · exact hline d hd
  · rw [hline' d hd, h.cursor]

theorem Grows.of_errors_eq {s t : Session} (hc : t.cursor = s.cursor) (he : t.errors = s.errors) :
    s.Grows t :=
  ⟨hc, [], by simp [he], by simp⟩

theorem note_grows (s : Session) (f : ProgramFault) : s.Grows (s.note f) :=
  ⟨rfl, [⟨f, s.cursor.line⟩], by simp [note], by simp⟩

theorem noteIf_grows (s : Session) (b : Bool) (f : ScopeFault) : s.Grows (s.noteIf b f) := by
  unfold noteIf
  split
  · exact s.note_grows _
  · exact .refl s

theorem perform_grows (s : Session) {e : Event} (he : e.isReach = false) :
    ∃ t, s.perform e = .ok t ∧ s.Grows t := by
  cases e with
  | reach t => cases he
  | report f => exact ⟨_, rfl, s.note_grows _⟩
  | declare x =>
      refine ⟨_, rfl, ?_⟩
      rw [declare_eq]
      refine Grows.trans ?_ (noteIf_grows _ _ _)
      exact .of_errors_eq rfl rfl
  | use x => exact ⟨_, rfl, s.noteIf_grows _ _⟩
  | call f => exact ⟨_, rfl, s.noteIf_grows _ _⟩
  | enter f r =>
      refine ⟨_, rfl, ?_⟩
      exact Grows.trans (s.noteIf_grows _ _) (.of_errors_eq rfl rfl)
  | parameter x => exact ⟨_, rfl, .of_errors_eq rfl rfl⟩
  | leave =>
      refine ⟨_, rfl, ?_⟩
      unfold leave
      split
      · exact .refl s
      · exact .of_errors_eq rfl rfl

theorem performAll_grows {es : List Event} (hes : ∀ e ∈ es, e.isReach = false) (s : Session) :
    ∃ t, s.performAll es = .ok t ∧ s.Grows t := by
  induction es generalizing s with
  | nil => exact ⟨s, rfl, .refl s⟩
  | cons e es ih =>
      obtain ⟨t, ht, hst⟩ := s.perform_grows (hes e (by simp))
      obtain ⟨u, hu, htu⟩ := ih (fun e he => hes e (by simp [he])) t
      exact ⟨u, (performAll_cons_ok ht es).trans hu, hst.trans htu⟩

end Session

/-! ## The current token -/

/-- The line of the current token, which is the first of `rest`; when no token is left it is the line
of the last of all tokens, and 1 if there are none. -/
def Token.currentLine (all rest : List Token) : Nat :=
  ((rest.head?.or all.getLast?).map (·.line)).getD 1

theorem Token.currentLine_tail {all rest : List Token} {t : Token} (h : t :: rest <:+ all)
    (hrest : rest = []) : Token.currentLine all rest = t.line := by
  obtain ⟨us, rfl⟩ := h
  simp [Token.currentLine, hrest]

/-! ## Parses in step with the source text -/

namespace Parse

/-- The cursor of a parse stands right behind the current token and on its line. -/
structure InStep (ts : List Token) (p : Parse) : Prop where
  isSuffix : p.reading.tokens <:+ ts
  faces : p.session.cursor.Faces p.reading.tokens.tail
  line_eq : p.session.cursor.line = Token.currentLine ts p.reading.tokens

/-- All that is noted between two states of a parse is on line `n`. -/
def NotesOn (n : Nat) (p q : Parse) : Prop :=
  ∃ new : List (Diagnostic ProgramFault),
    q.session.errors.toList = p.session.errors.toList ++ new ∧ ∀ d ∈ new, d.line = n

/-- The next token is met behind the current one. -/
theorem exists_inStep_arrival {ts rest : List Token} (hts : ∀ t ∈ ts, 1 ≤ t.line)
    (hsuf : rest <:+ ts) {s : Session} (hfaces : s.cursor.Faces rest)
    (hend : rest = [] → s.cursor.line = Token.currentLine ts []) (gs : List Goal) :
    ∃ t, s.performAll (arrival rest) = .ok t ∧ t.errors = s.errors ∧ InStep ts ⟨⟨gs, rest⟩, t⟩ := by
  cases rest with
  | nil => exact ⟨s, rfl, rfl, hsuf, hfaces, hend rfl⟩
  | cons u us =>
      obtain ⟨d, hd, hline, hus⟩ := hfaces.seek
      have hu : 1 ≤ u.line := hts u (hsuf.subset (by simp))
      refine ⟨{ s with cursor := d }, ?_, rfl, hsuf, hus, ?_⟩
      · exact Session.performAll_cons_ok (by simp [Session.perform, hd, Except.map]) []
      · simp only [Cursor.line, hline, Token.currentLine, List.head?_cons, Option.some_or,
          Option.map_some, Option.getD_some]
        omega

/-- A step never misses a token, and notes its faults on the line of the current one. -/
theorem InStep.step {ts : List Token} (hts : ∀ t ∈ ts, 1 ≤ t.line) {p : Parse}
    (h : InStep ts p) : p.step = none ∨
      ∃ q, p.Steps q ∧ InStep ts q ∧ NotesOn (Token.currentLine ts p.reading.tokens) p q := by
  obtain ⟨r, s⟩ := p
  cases hr : r.step with
  | none => exact .inl (by simp [Parse.step, hr])
  | some x =>
      obtain ⟨es, r'⟩ := x
      obtain ⟨told, htold, hmove⟩ := Reading.step_eq_some hr
      obtain ⟨t, ht, hgrows⟩ := s.performAll_grows htold
      obtain ⟨new, hnew, hlines⟩ := hgrows.errors
      right
      rcases hmove with ⟨rfl, hkeep⟩ | ⟨rfl, hshift⟩
      · refine ⟨⟨r', t⟩, steps_iff.mpr ⟨_, hr, ht⟩, ?_, new, hnew, ?_⟩
        · exact ⟨hkeep ▸ h.isSuffix, by rw [hgrows.cursor, hkeep]; exact h.faces,
            by rw [hgrows.cursor, hkeep]; exact h.line_eq⟩
        · exact fun d hd => (hlines d hd).trans h.line_eq
      · -- behind the last token the cursor stays on its line
        have hend : r.tokens.tail = [] → t.cursor.line = Token.currentLine ts [] := by
          intro hnil
          rw [hgrows.cursor, h.line_eq]
          cases hrest : r.tokens with
          | nil => rfl
          | cons u us =>
              have hus : us = [] := by simpa [hrest] using hnil
              have hsuf : u :: us <:+ ts := hrest ▸ h.isSuffix
              rw [← hus, Token.currentLine_tail hsuf hus]
              simp [Token.currentLine]
        obtain ⟨v, hv, herr, hin⟩ := exists_inStep_arrival hts
          ((List.tail_suffix _).trans h.isSuffix) (hgrows.cursor ▸ h.faces) hend r'.goals
        refine ⟨⟨r', v⟩, ?_, ?_, new, by rw [herr, hnew], ?_⟩
        · exact steps_iff.mpr ⟨_, hr, (Session.performAll_append_ok ht _).trans hv⟩
        · rwa [← hshift] at hin
        · exact fun d hd => (hlines d hd).trans h.line_eq

theorem InStep.of_reaches {ts : List Token} (hts : ∀ t ∈ ts, 1 ≤ t.line) {p q : Parse}
    (h : InStep ts p) (hpq : Relation.ReflTransGen Steps p q) : InStep ts q := by
  induction hpq with
  | refl => exact h
  | @tail q r _ hqr ih =>
      rcases ih.step hts with hq | ⟨r', hqr', hr', -⟩
      · cases hq.symm.trans hqr
      · cases hqr.symm.trans hqr'
        exact hr'

theorem le_line_of_mem_significant {source : Text} :
    ∀ t ∈ (Lexed.ofSource source).significant, 1 ≤ t.line := by
  intro t ht
  exact (Lexed.stamped_tokens source).le_line t (Token.mem_significant.mp ht).1

theorem exists_inStep_start {source : Text} (h : (Lexed.ofSource source).errors = []) :
    ∃ p, start (Lexed.ofSource source).significant source = .ok p ∧ p.session.errors = #[] ∧
      InStep (Lexed.ofSource source).significant p := by
  obtain ⟨s, hs, herr, hin⟩ := exists_inStep_arrival le_line_of_mem_significant
    (List.suffix_refl _) (s := Session.start source) (Lexed.faces_significant h)
    (fun hnil => by rw [hnil]; rfl) programGoals
  exact ⟨_, by rw [start, hs]; rfl, herr, hin⟩

/-- The parse of a source text without lexical faults comes to its end. -/
theorem exists_reachable_end {source : Text} (h : (Lexed.ofSource source).errors = []) :
    ∃ p, Reachable (Lexed.ofSource source).significant source p ∧ p.step = none := by
  obtain ⟨p₀, hp₀, -, hin₀⟩ := exists_inStep_start h
  obtain ⟨p, hreach, hend⟩ := exists_reaches_last p₀
  refine ⟨p, ⟨p₀, hp₀, hreach⟩, ?_⟩
  rcases hend with hend | ⟨m, hend⟩
  · exact hend
  · have hin := hin₀.of_reaches le_line_of_mem_significant hreach
    rcases hin.step le_line_of_mem_significant with hp | ⟨q, hpq, -⟩
    · exact hp
    · cases hend.symm.trans hpq

end Parse

/-! ## Diagnostics of a source text -/

namespace Outcome

/-- A source text without lexical faults is analysed to the end. -/
theorem exists_ofTokens_ofSource {source : Text} (h : (Lexed.ofSource source).errors = []) :
    ∃ o, ofTokens (Lexed.ofSource source).tokens source = .ok o := by
  obtain ⟨p, hp, hend⟩ := Parse.exists_reachable_end h
  exact ⟨p.outcome, Parse.ofTokens_eq_ok_iff.mpr ⟨p, hp, hend, rfl⟩⟩

/-- The analysis of a source text without lexical faults comes to its end, and each step of it notes
its faults on the line that the current token carries. -/
theorem noted_on_current_line {source : Text} (h : (Lexed.ofSource source).errors = []) :
    let ts := (Lexed.ofSource source).significant
    (∃ p, Parse.Reachable ts source p ∧ p.step = none ∧
      ofTokens (Lexed.ofSource source).tokens source = .ok p.outcome) ∧
    (∀ p, Parse.start ts source = .ok p → p.session.errors = #[]) ∧
    ∀ p, Parse.Reachable ts source p → p.step = none ∨
      ∃ q, p.Steps q ∧ p.NotesOn (Token.currentLine ts p.reading.tokens) q := by
  intro ts
  obtain ⟨p₀, hp₀, herr, hin₀⟩ := Parse.exists_inStep_start h
  refine ⟨?_, ?_, ?_⟩
  · obtain ⟨p, hp, hend⟩ := Parse.exists_reachable_end h
    exact ⟨p, hp, hend, Parse.ofTokens_eq_ok_iff.mpr ⟨p, hp, hend, rfl⟩⟩
  · intro p hp
    cases hp₀.symm.trans hp
    exact herr
  · rintro p ⟨p₁, hp₁, hreach⟩
    cases hp₀.symm.trans hp₁
    have hin := hin₀.of_reaches Parse.le_line_of_mem_significant hreach
    rcases hin.step Parse.le_line_of_mem_significant with hp | ⟨q, hpq, -, hnotes⟩
    · exact .inl hp
    · exact .inr ⟨q, hpq, hnotes⟩

/-- A text with glued lexemes, blank lines and a fault that is noted at the end of the input. -/
def gluedSource : Text := "begin\r\n\n read(y);\nx:=a<=1".toList

theorem noted_on_current_line_glued :
    (Lexed.ofSource gluedSource).errors = [] ∧
      (∃ p, Parse.Reachable (Lexed.ofSource gluedSource).significant gluedSource p ∧
        p.step = none) ∧
      ∀ p, Parse.Reachable (Lexed.ofSource gluedSource).significant gluedSource p →
        p.step = none ∨ ∃ q, p.Steps q ∧
          p.NotesOn (Token.currentLine (Lexed.ofSource gluedSource).significant
            p.reading.tokens) q := by
  have h : (Lexed.ofSource gluedSource).errors = [] := by decide
  obtain ⟨⟨p, hp, hend, -⟩, -, hsteps⟩ := noted_on_current_line h
  exact ⟨h, ⟨p, hp, hend⟩, hsteps⟩

end Outcome

end BlockLang
