import BlockLang.Proofs.Analysis.Quotation
import Mathlib.Data.List.Forall2

/-!
# Alike readings

A reading does not look at the texts of its tokens, it only hands them on. So readings of tokens
that differ in their texts take the same steps, and the texts that they tell of differ in the way
that those of the tokens do.
-/

namespace BlockLang

open Grammar (Event Goal Move Reading arrival found kind? lexeme nextKind?)
open List (Forall₂)

/-- Tokens of one kind whose lexemes are related. Those that can stand for a type are also related
as types. -/
structure Token.Alike (R S : Text → Text → Prop) (t u : Token) : Prop where
  kind : u.kind = t.kind
  lexeme : R t.lexeme u.lexeme
  type : t.kind = .integerWord → S t.lexeme u.lexeme

inductive GrammarFault.Alike (R : Text → Text → Prop) : GrammarFault → GrammarFault → Prop
  | plain {f : GrammarFault} (h : f.text? = none) : Alike R f f
  | notIdentifier {x y : Text} (h : R x y) : Alike R (.notIdentifier x) (.notIdentifier y)
  | missingParameter {x y : Text} (h : R x y) : Alike R (.missingParameter x) (.missingParameter y)
  | illegalStatement {x y : Text} (h : R x y) : Alike R (.illegalStatement x) (.illegalStatement y)
  | expectedFactor {x y : Text} (h : R x y) : Alike R (.expectedFactor x) (.expectedFactor y)
  | expectedRelation {x y : Text} (h : R x y) : Alike R (.expectedRelation x) (.expectedRelation y)
  | trailingSymbol {x y : Text} (h : R x y) : Alike R (.trailingSymbol x) (.trailingSymbol y)

namespace Grammar

/-- Events that differ in their texts: the names in them are related, and so are the types. -/
inductive Event.Alike (R S : Text → Text → Prop) : Event → Event → Prop
  | reach {t u : Token} (h : t.Alike R S u) : Alike R S (.reach t) (.reach u)
  | report {f g : GrammarFault} (h : f.Alike R g) : Alike R S (.report f) (.report g)
  | declare {x y : Text} (h : R x y) : Alike R S (.declare x) (.declare y)
  | use {x y : Text} (h : R x y) : Alike R S (.use x) (.use y)
  | call {x y : Text} (h : R x y) : Alike R S (.call x) (.call y)
  | enter {x y r s : Text} (h : R x y) (hs : S r s) : Alike R S (.enter x r) (.enter y s)
  | parameter {x y : Text} (h : R x y) : Alike R S (.parameter (some x)) (.parameter (some y))
  | noParameter : Alike R S (.parameter none) (.parameter none)
  | leave : Alike R S .leave .leave

inductive Goal.Alike (S : Text → Text → Prop) : Goal → Goal → Prop
  | plain {g : Goal} (h : g.text? = none) : Alike S g g
  | functionName {r s : Text} (h : S r s) : Alike S (.functionName r) (.functionName s)

inductive Move.Alike (R S : Text → Text → Prop) : Move → Move → Prop
  | keep {es fs : List Event} {gs hs : List Goal} (he : Forall₂ (Event.Alike R S) es fs)
      (hg : Forall₂ (Goal.Alike S) gs hs) : Alike R S (.keep es gs) (.keep fs hs)
  | shift {es fs : List Event} {gs hs : List Goal} (he : Forall₂ (Event.Alike R S) es fs)
      (hg : Forall₂ (Goal.Alike S) gs hs) : Alike R S (.shift es gs) (.shift fs hs)

structure Reading.Alike (R S : Text → Text → Prop) (r s : Reading) : Prop where
  goals : Forall₂ (Goal.Alike S) r.goals s.goals
  tokens : Forall₂ (Token.Alike R S) r.tokens s.tokens

variable {R S : Text → Text → Prop} {g h : Goal} {gs hs : List Goal} {ts us : List Token}

/-! ## The current token -/

theorem kind?_of_alike (hts : Forall₂ (Token.Alike R S) ts us) : kind? us = kind? ts := by
  cases hts with
  | nil => rfl
  | cons ht _ => exact congrArg some ht.kind

theorem nextKind?_of_alike (hts : Forall₂ (Token.Alike R S) ts us) :
    nextKind? us = nextKind? ts := by
  cases hts with
  | nil => rfl
  | cons _ hts => exact kind?_of_alike hts

theorem lexeme_of_alike (hts : Forall₂ (Token.Alike R S) ts us) (h₀ : R [] []) :
    R (lexeme ts) (lexeme us) := by
  cases hts with
  | nil => exact h₀
  | cons ht _ => exact ht.lexeme

theorem found_of_alike (hts : Forall₂ (Token.Alike R S) ts us)
    (h₁ : R "end of input".toList "end of input".toList) : R (found ts) (found us) := by
  cases hts with
  | nil => exact h₁
  | cons ht _ => exact ht.lexeme

theorem type_of_alike (hts : Forall₂ (Token.Alike R S) ts us)
    (hkind : kind? ts = some .integerWord) : S (lexeme ts) (lexeme us) := by
  cases hts with
  | nil => cases hkind
  | cons ht _ => exact ht.type (Option.some.inj hkind)

theorem arrival_of_alike (hts : Forall₂ (Token.Alike R S) ts us) :
    Forall₂ (Event.Alike R S) (arrival ts) (arrival us) := by
  cases hts with
  | nil => exact .nil
  | cons ht _ => exact .cons (.reach ht) .nil

theorem alike_tail (hts : Forall₂ (Token.Alike R S) ts us) :
    Forall₂ (Token.Alike R S) ts.tail us.tail := by
  cases hts with
  | nil => exact .nil
  | cons _ hts => exact hts

/-! ## Moves -/

theorem alike_of_plain (h : gs.all (·.text?.isNone) = true) : Forall₂ (Goal.Alike S) gs gs := by
  rw [List.forall₂_same]
  intro g hg
  exact .plain (Option.isNone_iff_eq_none.mp (List.all_eq_true.mp h g hg))

theorem functionGoals_alike {r s : Text} (h : S r s) :
    Forall₂ (Goal.Alike S) (functionGoals r) (functionGoals s) :=
  .cons (.plain rfl) (.cons (.functionName h) (alike_of_plain rfl))

theorem Event.Alike.isReach_eq {e f : Event} (h : e.Alike R S f) : f.isReach = e.isReach := by
  cases h <;> rfl

theorem Event.Alike.single {e f : Event} (h : e.Alike R S f) : Forall₂ (Event.Alike R S) [e] [f] :=
  .cons h .nil

theorem Goal.Alike.move (hg : g.Alike S h) (hts : Forall₂ (Token.Alike R S) ts us) (h₀ : R [] [])
    (h₁ : R "end of input".toList "end of input".toList) :
    (g.move ts).Alike R S (h.move us) := by
  have hkind := kind?_of_alike hts
  have hnext := nextKind?_of_alike hts
  have hlexeme := lexeme_of_alike hts h₀
  have hfound := found_of_alike hts h₁
  cases hg with
  | functionName hs =>
      simp only [Goal.move, hkind]
      split
      · exact .shift (.cons (.enter hlexeme hs) .nil) .nil
      · exact .shift (.cons (.report (.plain rfl)) (.cons (.enter hlexeme hs) .nil)) .nil
  | plain hplain =>
      cases g with
      | expect k p =>
          simp only [Goal.move, hkind]
          split
          · exact .shift .nil .nil
          · exact .shift (Event.Alike.single (.report (.plain rfl))) .nil
      | accept k p =>
          simp only [Goal.move, hkind]
          split
          · exact .shift .nil .nil
          · exact .keep (Event.Alike.single (.report (.plain rfl))) .nil
      | declarations | statements | expression | term => exact .keep .nil (alike_of_plain rfl)
      | moreDeclarations | moreStatements | moreTerms | moreFactors =>
          simp only [Goal.move, hkind]
          split
          · exact .shift .nil (alike_of_plain rfl)
          · exact .keep .nil .nil
      | declaration =>
          simp only [Goal.move, hkind, hnext]
          split
          · rename_i hinteger
            split
            · exact .shift .nil (functionGoals_alike (type_of_alike hts hinteger))
            · exact .shift .nil (alike_of_plain rfl)
            · exact .keep (Event.Alike.single (.report (.plain rfl))) .nil
            · exact .keep (Event.Alike.single (.report (.plain rfl))) .nil
          · exact .keep .nil .nil
      | declaredName => exact .keep (Event.Alike.single (.declare hlexeme)) .nil
      | functionName r => cases hplain
      | parameter =>
          simp only [Goal.move, hkind]
          split
          · exact .shift (Event.Alike.single (.parameter hlexeme)) .nil
          · exact .shift (.cons (.report (.missingParameter hfound)) (.cons .noParameter .nil)) .nil
      | endOfFunction => exact .keep (Event.Alike.single .leave) .nil
      | statement =>
          simp only [Goal.move, hkind]
          split
          · exact .shift .nil (alike_of_plain rfl)
          · exact .shift .nil (alike_of_plain rfl)
          · exact .keep .nil (alike_of_plain rfl)
          · exact .shift .nil (alike_of_plain rfl)
          · exact .keep (Event.Alike.single (.report (.illegalStatement hfound))) .nil
      | factor =>
          simp only [Goal.move, hkind, hnext]
          split
          · split
            · exact .shift (Event.Alike.single (.call hlexeme)) (alike_of_plain rfl)
            · exact .keep .nil (alike_of_plain rfl)
          · exact .shift .nil .nil
          · exact .keep (Event.Alike.single (.report (.expectedFactor hfound))) .nil
      | relation =>
          simp only [Goal.move, hkind]
          split
          · exact .shift .nil .nil
          · exact .keep (Event.Alike.single (.report (.expectedRelation hfound))) .nil
      | «variable» =>
          simp only [Goal.move, hkind]
          split
          · exact .shift (Event.Alike.single (.use hlexeme)) .nil
          · exact .shift (.cons (.report (.notIdentifier hfound)) (.cons (.use hlexeme) .nil)) .nil
      | endOfProgram =>
          cases hts with
          | nil => exact .keep .nil .nil
          | cons ht _ => exact .keep (Event.Alike.single (.report (.trailingSymbol ht.lexeme))) .nil

/-! ## Steps -/

namespace Reading

variable {r s : Reading}

theorem Alike.step (h : r.Alike R S s) (h₀ : R [] [])
    (h₁ : R "end of input".toList "end of input".toList) :
    Option.Rel (fun a b => Forall₂ (Event.Alike R S) a.1 b.1 ∧ a.2.Alike R S b.2)
      r.step s.step := by
  obtain ⟨goals, ts⟩ := r
  obtain ⟨goals', us⟩ := s
  obtain ⟨hgoals, hts⟩ := h
  cases hgoals with
  | nil => exact .none
  | @cons g g' gs gs' hg hgs =>
      have hmove := hg.move hts h₀ h₁
      simp only [Reading.step]
      generalize g.move ts = m at hmove
      generalize g'.move us = m' at hmove
      cases hmove with
      | keep he hnew => exact .some ⟨he, List.rel_append hnew hgs, hts⟩
      | shift he hnew =>
          have htail := alike_tail hts
          exact .some ⟨List.rel_append he (arrival_of_alike htail), List.rel_append hnew hgs, htail⟩

theorem Alike.trace (h : r.Alike R S s) (h₀ : R [] [])
    (h₁ : R "end of input".toList "end of input".toList) :
    Forall₂ (Event.Alike R S) r.trace s.trace := by
  induction r using stepInduction generalizing s with
  | h r ih =>
      have hstep := h.step h₀ h₁
      generalize hr : r.step = x at hstep
      generalize hs : s.step = y at hstep
      cases hstep with
      | none =>
          rw [trace_of_end hr, trace_of_end hs]
          exact .nil
      | some hab =>
          rw [trace_of_step hr, trace_of_step hs]
          exact List.rel_append hab.1 (ih _ _ hr hab.2)

end Reading

theorem programGoals_alike (S : Text → Text → Prop) :
    Forall₂ (Goal.Alike S) programGoals programGoals := alike_of_plain rfl

theorem eventsOf_alike (hts : Forall₂ (Token.Alike R S) ts us) (h₀ : R [] [])
    (h₁ : R "end of input".toList "end of input".toList) :
    Forall₂ (Event.Alike R S) (eventsOf ts) (eventsOf us) :=
  List.rel_append (arrival_of_alike hts) (Reading.Alike.trace ⟨programGoals_alike S, hts⟩ h₀ h₁)

end Grammar

end BlockLang
