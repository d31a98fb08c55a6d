import BlockLang.Proofs.Analysis.LineTracking
import BlockLang.Proofs.Grammar.Extent

/-!
# Agreement of sessions

The source text and the lines of the tokens decide where the cursor of a session is and what lines
its diagnostics have, and whether every token is met. Apart from that, sessions that follow the same
tokens agree.
-/

namespace BlockLang

open Grammar (Event endPosition eventsOf programGoals reachedIn)

/-! ## Agreement -/

namespace Session

variable {s t u : Session} {es fs : List Event}

/-- Two sessions differ in the place in the source text and in the lines of what they noted only. -/
structure Agrees (s t : Session) : Prop where
  symbols : t.symbols = s.symbols
  scope : t.scope = s.scope
  outer : t.outer = s.outer
  faults : t.errors.toList.map (·.fault) = s.errors.toList.map (·.fault)

theorem Agrees.refl (s : Session) : s.Agrees s := ⟨rfl, rfl, rfl, rfl⟩

theorem Agrees.symm (h : s.Agrees t) : t.Agrees s :=
  ⟨h.symbols.symm, h.scope.symm, h.outer.symm, h.faults.symm⟩

theorem Agrees.trans (h : s.Agrees t) (k : t.Agrees u) : s.Agrees u :=
  ⟨k.symbols.trans h.symbols, k.scope.trans h.scope, k.outer.trans h.outer,
    k.faults.trans h.faults⟩

theorem Agrees.note (h : s.Agrees t) (f : ProgramFault) : (s.note f).Agrees (t.note f) :=
  ⟨h.symbols, h.scope, h.outer, by simp [Session.note, h.faults]⟩

theorem Agrees.noteIf (h : s.Agrees t) (b : Bool) (f : ScopeFault) :
    (s.noteIf b f).Agrees (t.noteIf b f) := by
  unfold Session.noteIf
  split
  · exact h.note _
  · exact h

theorem Agrees.perform (h : s.Agrees t) {e : Event} {s' : Session} (hs : s.perform e = .ok s')
    (he : e.isReach = false) : ∃ t', t.perform e = .ok t' ∧ s'.Agrees t' := by
  obtain ⟨hsymbols, hscope, houter, hfaults⟩ := h
  cases e with
  | reach u => cases he
  | report f =>
      cases hs
      exact ⟨_, rfl, Agrees.note ⟨hsymbols, hscope, houter, hfaults⟩ _⟩
  | declare x =>
      cases hs
      refine ⟨_, rfl, ?_⟩
      rw [declare_eq, declare_eq, hsymbols, hscope]
      refine Agrees.noteIf ?_ _ _
      exact ⟨rfl, rfl, houter, hfaults⟩
  | use x | call x =>
      cases hs
      refine ⟨_, rfl, ?_⟩
      simp only [use, call, hsymbols, hscope]
      exact Agrees.noteIf ⟨hsymbols, hscope, houter, hfaults⟩ _ _
  | enter f r =>
      cases hs
      refine ⟨_, rfl, ?_⟩
      have hnote := Agrees.noteIf ⟨hsymbols, hscope, houter, hfaults⟩
        (s.symbols.declareProcedure f r (s.scope.level + 1) s.scope.procedure).1.isDuplicate
        (.duplicateFunction f)
      simp only [enter, hsymbols, hscope, houter]
      exact ⟨rfl, rfl, rfl, hnote.faults⟩
  | parameter x =>
      cases hs
      refine ⟨_, rfl, ?_⟩
      simp only [parameter, hsymbols, hscope]
      exact ⟨rfl, rfl, houter, hfaults⟩
  | leave =>
      cases hs
      refine ⟨_, rfl, ?_⟩
      unfold leave
      rw [houter]
      split
      · exact ⟨hsymbols, hscope, houter, hfaults⟩
      · exact ⟨hsymbols, rfl, rfl, hfaults⟩

/-- Without the arrival of tokens a session finds the same. -/
theorem Agrees.performAll (h : s.Agrees t) {es : List Event} {s' : Session}
    (hs : s.performAll es = .ok s') :
    ∃ t', t.performAll (es.filter fun e => !e.isReach) = .ok t' ∧ s'.Agrees t' := by
  induction es generalizing s t with
  | nil =>
      cases hs
      exact ⟨t, rfl, h⟩
  | cons e es ih =>
      obtain ⟨u, hu, hs⟩ := performAll_cons_eq_ok.mp hs
      cases he : e.isReach with
      | true =>
          have hreach : u.Agrees t := by
            cases e with
            | reach v =>
                obtain ⟨c, -, rfl⟩ := perform_reach hu
                exact ⟨h.symbols, h.scope, h.outer, h.faults⟩
            | _ => cases he
          rw [List.filter_cons_of_neg (by simp [he])]
          exact ih hreach hs
      | false =>
          obtain ⟨v, hv, huv⟩ := h.perform hu he
          rw [List.filter_cons_of_pos (by simp [he]), performAll_cons_ok hv]
          exact ih huv hs

/-- Sessions that agree come to ends that agree, wherever they meet the tokens. -/
theorem Agrees.of_performAll (h : s.Agrees t) {s' t' : Session} (hs : s.performAll es = .ok s')
    (ht : t.performAll es = .ok t') : s'.Agrees t' := by
  obtain ⟨u, hu, hagrees⟩ := Agrees.performAll h hs
  obtain ⟨v, hv, hagrees'⟩ := Agrees.performAll (Agrees.refl t) ht
  cases hu.symm.trans hv
  exact hagrees.trans hagrees'.symm

/-! ## The cursor of a session -/

/-- A session seeks the lexemes of the tokens that become current, one after another. -/
theorem map_cursor_performAll (s : Session) (es : List Event) :
    (s.performAll es).map (·.cursor) =
      ((reachedIn es).map (·.lexeme)).foldlM Cursor.seek s.cursor := by
  induction es generalizing s with
  | nil => rfl
  | cons e es ih =>
      cases he : e.isReach with
      | true =>
          cases e with
          | reach t =>
              rw [performAll, List.foldlM_cons, Grammar.reachedIn_reach, List.map_cons,
                List.foldlM_cons, perform]
              cases s.cursor.seek t.lexeme with
              | error m => rfl
              | ok c => exact ih _
          | _ => cases he
      | false =>
          obtain ⟨t, ht, hgrows⟩ := s.perform_grows he
          rw [performAll_cons_ok ht, ih t, hgrows.cursor, Grammar.reachedIn_cons_of_not he]

/-! ## The lines of tokens -/

theorem perform_eq_of_alike {e f : Event} (h : e.Alike Eq Eq f) (s : Session) :
    s.perform e = s.perform f := by
  cases h with
  | reach ht => rw [perform, perform, ht.lexeme]
  | report hf => cases hf <;> simp_all
  | declare hx | use hx | call hx | parameter hx => rw [hx]
  | enter hx hr => rw [hx, hr]
  | noParameter | leave => rfl

theorem performAll_eq_of_alike (h : List.Forall₂ (Event.Alike Eq Eq) es fs) (s : Session) :
    s.performAll es = s.performAll fs := by
  induction h generalizing s with
  | nil => rfl
  | cons he _ ih =>
      rw [performAll, performAll, List.foldlM_cons, List.foldlM_cons, perform_eq_of_alike he]
      exact bind_congr ih

end Session

namespace Parse

open Relation (ReflTransGen)

theorem rest_of_reaches {p q : Parse} (h : ReflTransGen Steps p q) :
    p.reading.rest = q.reading.rest := by
  induction h with
  | refl => rfl
  | tail _ hs ih =>
      obtain ⟨es, hr, -⟩ := steps_iff.mp hs
      rw [ih, Grammar.Reading.rest_of_step hr]

/-- Wherever the tokens are met, a parse that comes to its end does so at the same position. -/
theorem tokens_at_end {ts : List Token} {source : Text} {p : Parse} (h : Reachable ts source p)
    (hend : p.step = none) : p.reading.tokens = ts.drop (endPosition (ts.map (·.kind))) := by
  obtain ⟨p₀, hp₀, hreach⟩ := h
  obtain ⟨s, -, rfl⟩ := start_eq_ok hp₀
  have hr : p.reading.step = none := by simpa [step] using hend
  rw [← Grammar.rest_eq_drop, ← Grammar.Reading.rest_of_end hr]
  exact (rest_of_reaches hreach).symm

end Parse

/-! ## Noninterference -/

/-- A search for one text after another fails with the first of them that is not found. -/
theorem Cursor.foldlM_seek_eq_error {c : Cursor} {xs : List Text} {m : Mismatch} :
    xs.foldlM Cursor.seek c = .error m ↔ ∃ ys x zs d, xs = ys ++ x :: zs ∧
      ys.foldlM Cursor.seek c = .ok d ∧ d.seek x = .error m := by
  induction xs generalizing c with
  | nil => simp [pure, Except.pure]
  | cons x xs ih =>
      rw [List.foldlM_cons]
      cases hx : c.seek x with
      | error m' =>
          constructor
          · rintro ⟨rfl⟩
            exact ⟨[], x, xs, c, rfl, rfl, hx⟩
          · rintro ⟨ys, y, zs, d, hxs, hd, hy⟩
            cases ys with
            | nil =>
                cases hd
                cases hxs
                cases hx.symm.trans hy
                rfl
            | cons y' ys =>
                cases hxs
                rw [List.foldlM_cons, hx] at hd
                cases hd
      | ok c' =>
          refine ih.trans ⟨?_, ?_⟩
          · rintro ⟨ys, y, zs, d, rfl, hd, hy⟩
            refine ⟨x :: ys, y, zs, d, rfl, ?_, hy⟩
            rw [List.foldlM_cons, hx]
            exact hd
          · rintro ⟨ys, y, zs, d, hxs, hd, hy⟩
            cases ys with
            | nil =>
                cases hd
                cases hxs
                cases hx.symm.trans hy
            | cons y' ys =>
                cases hxs
                rw [List.foldlM_cons, hx] at hd
                exact ⟨ys, y, zs, d, rfl, hd, hy⟩

/-! Computations that come to the same when their results are left aside. -/

section

variable {ε α β : Type} {x : Except ε α} {y : Except ε β}

theorem exists_ok_iff_of_map_eq (h : x.map (fun _ => ()) = y.map fun _ => ()) :
    (∃ a, x = .ok a) ↔ ∃ b, y = .ok b := by
  cases x <;> cases y <;> simp_all [Except.map]

theorem eq_error_iff_of_map_eq (h : x.map (fun _ => ()) = y.map fun _ => ()) {e : ε} :
    x = .error e ↔ y = .error e := by
  cases x <;> cases y <;> simp_all [Except.map]

end

namespace Outcome

variable {ts us : List Token} {source : Text}

/-- The analysis of a program ends as the search for the lexemes that it reaches does. -/
theorem map_ofTokens (ts : List Token) (source : Text) :
    (ofTokens ts source).map (fun _ => ()) =
      (((reachedIn (eventsOf (Token.significant ts))).map (·.lexeme)).foldlM Cursor.seek
        (Cursor.ofSource source)).map fun _ => () := by
  have hstart : (Session.start source).cursor = Cursor.ofSource source := rfl
  rw [← hstart, ← Session.map_cursor_performAll, ofTokens]
  cases (Session.start source).performAll (eventsOf (Token.significant ts)) <;> rfl

theorem alike_of_map_eq (h : us.map (fun t => (t.lexeme, t.kind)) =
    ts.map fun t => (t.lexeme, t.kind)) : List.Forall₂ (Token.Alike Eq Eq) ts us := by
  rw [← List.forall₂_eq_eq_eq, List.forall₂_map_left_iff, List.forall₂_map_right_iff] at h
  refine h.flip.imp fun t u htu => ?_
  obtain ⟨hlexeme, hkind⟩ := Prod.mk.inj htu
  exact ⟨hkind, hlexeme.symm, fun _ => hlexeme.symm⟩

/-- The lines that tokens carry and the end markers among them are ignored. -/
theorem ofTokens_eq_of_alike (h : List.Forall₂ (Token.Alike Eq Eq) (Token.significant ts)
    (Token.significant us)) (source : Text) : ofTokens us source = ofTokens ts source := by
  rw [ofTokens, ofTokens,
    Session.performAll_eq_of_alike (Grammar.eventsOf_alike h rfl rfl) (Session.start source)]

/-- Source texts on which a program is analysed to the end differ in the lines of faults only. -/
theorem agree_of_ofTokens {source₁ source₂ : Text} {o₁ o₂ : Outcome}
    (h₁ : ofTokens ts source₁ = .ok o₁) (h₂ : ofTokens ts source₂ = .ok o₂) :
    o₂.symbols = o₁.symbols ∧ o₂.errors.map (·.fault) = o₁.errors.map (·.fault) := by
  obtain ⟨s, hs, rfl⟩ := ofTokens_eq_ok.mp h₁
  obtain ⟨t, ht, rfl⟩ := ofTokens_eq_ok.mp h₂
  have hstart : (Session.start source₁).Agrees (Session.start source₂) := ⟨rfl, rfl, rfl, rfl⟩
  have hagrees := hstart.of_performAll hs ht
  exact ⟨hagrees.symbols, hagrees.faults⟩

/-- The source text and the lines of the tokens influence nothing but the lines of diagnostics and
whether a token is missed. The kinds of the tokens tell where the reading of a program ends; the
analysis fails if and only if the source text does not have, in order, the lexemes up to there, and
then with the first that is not found. Whenever the analysis of the same lexemes comes to its end,
it comes to the same symbol table and the same faults. -/
theorem ofTokens_noninterference (ts : List Token) :
    let us := Token.significant ts
    let n := endPosition (us.map (·.kind))
    let sought := (us.take (n + 1)).map (·.lexeme)
    (∀ source,
      ((∃ o, ofTokens ts source = .ok o) ↔
        ∃ c, sought.foldlM Cursor.seek (Cursor.ofSource source) = .ok c) ∧
      (∀ m, ofTokens ts source = .error m ↔ ∃ xs x ys c, sought = xs ++ x :: ys ∧
        xs.foldlM Cursor.seek (Cursor.ofSource source) = .ok c ∧ c.seek x = .error m) ∧
      ∀ p, Parse.Reachable us source p → p.step = none → p.reading.tokens = us.drop n) ∧
    ∀ ts', (Token.significant ts').map (fun t => (t.lexeme, t.kind)) =
        us.map (fun t => (t.lexeme, t.kind)) →
      (∀ source, ofTokens ts' source = ofTokens ts source) ∧
      ∀ source₁ source₂ o₁ o₂, ofTokens ts source₁ = .ok o₁ → ofTokens ts' source₂ = .ok o₂ →
        o₂.symbols = o₁.symbols ∧ o₂.errors.map (·.fault) = o₁.errors.map (·.fault) := by
  intro us n sought
  refine ⟨fun source => ?_, fun ts' hts' => ?_⟩
  · have hmap := map_ofTokens ts source
    rw [Grammar.reachedIn_eventsOf] at hmap
    refine ⟨exists_ok_iff_of_map_eq hmap, fun m => ?_, fun p hp hend => Parse.tokens_at_end hp hend⟩
    exact (eq_error_iff_of_map_eq hmap).trans Cursor.foldlM_seek_eq_error
  · have heq := ofTokens_eq_of_alike (alike_of_map_eq hts')
    refine ⟨heq, fun source₁ source₂ o₁ o₂ h₁ h₂ => ?_⟩
    rw [heq source₂] at h₂
    exact agree_of_ofTokens h₁ h₂

/-- The same program on four lines and on two. -/
theorem ofTokens_noninterference_spread :
    let narrow := "begin\n  integer x;\n\n  read(y) end".toList
    let wide := "begin integer x; read(y)\nend".toList
    ∃ o₁ o₂, ofTokens (Lexed.ofSource narrow).tokens narrow = .ok o₁ ∧
      ofTokens (Lexed.ofSource wide).tokens wide = .ok o₂ ∧
      ofTokens (Lexed.ofSource narrow).tokens wide = .ok o₂ ∧
      o₂.symbols = o₁.symbols ∧ o₂.errors.map (·.fault) = o₁.errors.map (·.fault) := by
  intro narrow wide
  have hnarrow : (Lexed.ofSource narrow).errors = [] := by decide +kernel
  have hwide : (Lexed.ofSource wide).errors = [] := by decide +kernel
  obtain ⟨o₁, h₁⟩ := exists_ofTokens_ofSource hnarrow
  obtain ⟨o₂, h₂⟩ := exists_ofTokens_ofSource hwide
  obtain ⟨hsame, hagree⟩ := (ofTokens_noninterference (Lexed.ofSource narrow).tokens).2
    (Lexed.ofSource wide).tokens (by decide +kernel)
  exact ⟨o₁, o₂, h₁, h₂, (hsame wide).symm.trans h₂, hagree narrow wide o₁ o₂ h₁ h₂⟩

end Outcome

end BlockLang
