import BlockLang.Proofs.Analysis.Parse
import BlockLang.Proofs.Syntax.Tree

/-!
# What a reading tells of a syntax tree

Reading tokens that spell a syntax tree tells of the names in the tree and of nothing else. The
tokens behind them must not go on with the tree; a part of a program never needs to look further.
-/

namespace BlockLang

open Grammar (Event Goal Reading kind? nextKind? lexeme)
open TokenKind

/-! ## Events of a syntax tree -/

namespace Syntax

mutual

def Factor.events : Factor → List Event
  | .name x => [.use x]
  | .number => []
  | .call f e => .call f :: Expression.events e

def Term.events : Term → List Event
  | .factor f => Factor.events f
  | .product f u => Factor.events f ++ Term.events u

def Expression.events : Expression → List Event
  | .term u => Term.events u
  | .difference u e => Term.events u ++ Expression.events e

end

def Statement.events : Statement → List Event
  | .read x | .write x => [.use x]
  | .assignment x e => .use x :: e.events
  | .conditional d e s u => d.events ++ (e.events ++ (Statement.events s ++ Statement.events u))

def Statements.events : Statements → List Event
  | .last s => s.events
  | .more s ss => s.events ++ Statements.events ss

mutual

/-- A declared variable is looked up right away. -/
def Declaration.events : Declaration → List Event
  | .variable x => [.declare x, .use x]
  | .function r f p ds ss =>
    .enter f r :: .parameter (some p) :: (Declarations.events ds ++ (ss.events ++ [.leave]))

def Declarations.events : Declarations → List Event
  | .none => []
  | .last d => Declaration.events d
  | .skip ds => Declarations.events ds
  | .more d ds => Declaration.events d ++ Declarations.events ds

end

def Program.events (p : Program) : List Event := p.declarations.events ++ p.statements.events

end Syntax

/-- Whether an event tells of a name that is used. -/
def Grammar.Event.isMention : Event → Bool
  | .use _ | .call _ => true
  | _ => false

namespace Syntax

mutual

theorem Factor.isMention_events (f : Factor) : f.events.all Event.isMention = true := by
  match f with
  | .name x | .number => rfl
  | .call f e => exact Expression.isMention_events e

theorem Term.isMention_events (u : Term) : u.events.all Event.isMention = true := by
  match u with
  | .factor f => exact Factor.isMention_events f
  | .product f u =>
      rw [Term.events, List.all_append, Factor.isMention_events f, Term.isMention_events u]
      rfl

theorem Expression.isMention_events (e : Expression) : e.events.all Event.isMention = true := by
  match e with
  | .term u => exact Term.isMention_events u
  | .difference u e =>
      rw [Expression.events, List.all_append, Term.isMention_events u,
        Expression.isMention_events e]
      rfl

end

theorem Statement.isMention_events (s : Statement) : s.events.all Event.isMention = true := by
  induction s with
  | read x | write x => rfl
  | assignment x e => exact e.isMention_events
  | conditional d e s u ihs ihu =>
      simp only [Statement.events, List.all_append, d.isMention_events, e.isMention_events, ihs,
        ihu, Bool.and_self]

/-- Statements declare nothing. -/
theorem Statements.isMention_events (ss : Statements) : ss.events.all Event.isMention = true := by
  induction ss with
  | last s => exact s.isMention_events
  | more s ss ih => rw [Statements.events, List.all_append, s.isMention_events, ih, Bool.and_self]

end Syntax

/-! ## Steps -/

namespace Grammar

/-- What a reading tells of, but for the arrival of tokens. -/
def Reading.told (r : Reading) : List Event := r.trace.filter fun e => !e.isReach

/-- The first of the tokens has none of some kinds. -/
def Stops (ks : List TokenKind) (ts : List Token) : Prop := ∀ k ∈ ks, kind? ts ≠ some k

variable {g : Goal} {gs new : List Goal} {es : List Event} {t : Token} {ts rest : List Token}

theorem stops_cons {ks : List TokenKind} (h : t.kind ∉ ks) : Stops ks (t :: ts) := by
  intro k hk he
  cases he
  exact h hk

theorem Stops.mono {ks ls : List TokenKind} (h : Stops ks ts) (hl : ∀ k ∈ ls, k ∈ ks) :
    Stops ls ts := fun k hk => h k (hl k hk)

theorem filter_isReach {es : List Event} (h : ∀ e ∈ es, e.isReach = false) :
    es.filter (fun e => !e.isReach) = es := by
  simpa using h

theorem filter_arrival (ts : List Token) : (arrival ts).filter (fun e => !e.isReach) = [] := by
  cases ts <;> rfl

theorem told_eventsOf (ts : List Token) :
    (eventsOf ts).filter (fun e => !e.isReach) = Reading.told ⟨programGoals, ts⟩ := by
  rw [eventsOf, List.filter_append, filter_arrival, List.nil_append, Reading.told]

theorem told_nil (ts : List Token) : Reading.told ⟨[], ts⟩ = [] := by
  simp [Reading.told, Reading.trace_nil]

theorem told_of_keep (h : g.move ts = .keep es new) :
    Reading.told ⟨g :: gs, ts⟩ = es ++ Reading.told ⟨new ++ gs, ts⟩ := by
  rw [Reading.told, Reading.trace_of_keep h, List.filter_append,
    filter_isReach (Goal.isReach_of_keep h), Reading.told]

theorem told_of_shift (h : g.move (t :: ts) = .shift es new) :
    Reading.told ⟨g :: gs, t :: ts⟩ = es ++ Reading.told ⟨new ++ gs, ts⟩ := by
  rw [Reading.told, Reading.trace_of_shift h, List.filter_append, List.filter_append,
    filter_isReach (Goal.isReach_of_shift h), List.tail_cons, filter_arrival, List.append_nil,
    Reading.told]

@[simp] theorem kind?_cons (t : Token) (ts : List Token) : kind? (t :: ts) = some t.kind := rfl

@[simp] theorem nextKind?_cons (t : Token) (ts : List Token) : nextKind? (t :: ts) = kind? ts := rfl

@[simp] theorem lexeme_cons (t : Token) (ts : List Token) : lexeme (t :: ts) = t.lexeme := rfl

theorem told_expect {k : TokenKind} {p : Place} (ht : t.kind = k) :
    Reading.told ⟨.expect k p :: gs, t :: ts⟩ = Reading.told ⟨gs, ts⟩ := by
  have hm : (Goal.expect k p).move (t :: ts) = .shift [] [] := by simp [Goal.move, ht]
  exact told_of_shift hm

theorem told_accept {k : TokenKind} {p : Place} (ht : t.kind = k) :
    Reading.told ⟨.accept k p :: gs, t :: ts⟩ = Reading.told ⟨gs, ts⟩ := by
  have hm : (Goal.accept k p).move (t :: ts) = .shift [] [] := by simp [Goal.move, ht]
  exact told_of_shift hm

theorem told_variable {x : Text} (ht : Syntax.Names t x) :
    Reading.told ⟨.variable :: gs, t :: ts⟩ = .use x :: Reading.told ⟨gs, ts⟩ := by
  have hm : Goal.variable.move (t :: ts) = .shift [.use x] [] := by
    simp [Goal.move, ht.kind, ht.lexeme]
  exact told_of_shift hm

/-! ## Repetitions -/

/-- A goal for a list, with the goals for its first item and for what is behind, and with the kind
of the tokens between the items. -/
inductive Repeats : Goal → Goal → Goal → TokenKind → Prop
  | factors : Repeats .term .factor .moreFactors times
  | terms : Repeats .expression .term .moreTerms minus
  | statements : Repeats .statements .statement .moreStatements semicolon
  | declarations : Repeats .declarations .declaration .moreDeclarations semicolon

namespace Repeats

variable {list item more : Goal} {k : TokenKind}

theorem move_list (h : Repeats list item more k) (ts : List Token) :
    list.move ts = .keep [] [item, more] := by
  cases h <;> rfl

theorem move_more (h : Repeats list item more k) (ts : List Token) :
    more.move ts = if kind? ts = some k then .shift [] [item, more] else .keep [] [] := by
  cases h <;> rfl

theorem told_list (h : Repeats list item more k) (gs : List Goal) (ts : List Token) :
    Reading.told ⟨list :: gs, ts⟩ = Reading.told ⟨item :: more :: gs, ts⟩ :=
  told_of_keep (h.move_list ts)

theorem told_stop (h : Repeats list item more k) (hts : Stops [k] ts) :
    Reading.told ⟨more :: gs, ts⟩ = Reading.told ⟨gs, ts⟩ := by
  have hm := h.move_more ts
  rw [if_neg (hts k (by simp))] at hm
  exact told_of_keep hm

theorem told_more (h : Repeats list item more k) (ht : t.kind = k) :
    Reading.told ⟨more :: gs, t :: ts⟩ = Reading.told ⟨list :: gs, ts⟩ := by
  have hm := h.move_more (t :: ts)
  rw [kind?_cons, if_pos (congrArg some ht)] at hm
  rw [told_of_shift hm, h.told_list]
  rfl

end Repeats

/-! ## Expressions -/

mutual

theorem told_factor {f : Syntax.Factor} {ts : List Token} (h : f.Spells ts) {rest : List Token}
    (hrest : Stops [leftParen] rest) (gs : List Goal) :
    Reading.told ⟨.factor :: gs, ts ++ rest⟩ = f.events ++ Reading.told ⟨gs, rest⟩ := by
  match h with
  | @Syntax.Factor.Spells.name x t ht =>
      have hm : Goal.factor.move (t :: rest) = .keep [] [.variable] := by
        simp [Goal.move, ht.kind, hrest leftParen (by simp)]
      exact (told_of_keep hm).trans (told_variable ht)
  | @Syntax.Factor.Spells.number t ht =>
      have hm : Goal.factor.move (t :: rest) = .shift [] [] := by simp [Goal.move, ht]
      exact told_of_shift hm
  | @Syntax.Factor.Spells.call x e t o c es ht ho he hc =>
      have hm : Goal.factor.move (t :: o :: (es ++ ([c] ++ rest))) =
          .shift [.call x] callGoals := by
        simp [Goal.move, ht.kind, ht.lexeme, ho]
      have hstop : Stops [leftParen, times, minus] ([c] ++ rest) := stops_cons (by simp [hc])
      simp only [List.cons_append, List.append_assoc, List.nil_append] at hm hstop ⊢
      rw [told_of_shift hm]
      simp only [callGoals, List.cons_append, List.nil_append]
      rw [told_expect ho, told_expression he hstop, told_expect hc]
      rfl

theorem told_term {u : Syntax.Term} {ts : List Token} (h : u.Spells ts) {rest : List Token}
    (hrest : Stops [leftParen, times] rest) (gs : List Goal) :
    Reading.told ⟨.term :: gs, ts ++ rest⟩ = u.events ++ Reading.told ⟨gs, rest⟩ := by
  match h with
  | .factor hf =>
      rw [Repeats.factors.told_list, told_factor hf (hrest.mono (by simp)),
        Repeats.factors.told_stop (hrest.mono (by simp))]
      rfl
  | @Syntax.Term.Spells.product f u m fs us hf hm hu =>
      rw [Repeats.factors.told_list, List.append_assoc, List.cons_append,
        told_factor hf (stops_cons (by simp [hm])), Repeats.factors.told_more hm, told_term hu hrest,
        ← List.append_assoc]
      rfl

theorem told_expression {e : Syntax.Expression} {ts : List Token} (h : e.Spells ts)
    {rest : List Token} (hrest : Stops [leftParen, times, minus] rest) (gs : List Goal) :
    Reading.told ⟨.expression :: gs, ts ++ rest⟩ = e.events ++ Reading.told ⟨gs, rest⟩ := by
  match h with
  | .term hu =>
      rw [Repeats.terms.told_list, told_term hu (hrest.mono (by simp)),
        Repeats.terms.told_stop (hrest.mono (by simp))]
      rfl
  | @Syntax.Expression.Spells.difference u e m us es hu hm he =>
      rw [Repeats.terms.told_list, List.append_assoc, List.cons_append,
        told_term hu (stops_cons (by simp [hm])), Repeats.terms.told_more hm, told_expression he hrest,
        ← List.append_assoc]
      rfl

end

/-! ## Statements -/

theorem told_transfer {x : Text} {o c : Token} {place : Place} (ho : o.kind = leftParen)
    (ht : Syntax.Names t x) (hc : c.kind = rightParen) :
    Reading.told ⟨transferGoals place ++ gs, o :: t :: c :: rest⟩ =
      .use x :: Reading.told ⟨gs, rest⟩ := by
  simp only [transferGoals, List.cons_append, List.nil_append]
  rw [told_expect ho, told_variable ht, told_expect hc]

theorem told_statement {s : Syntax.Statement} {ts : List Token} (h : s.Spells ts)
    {rest : List Token} (hrest : Stops [leftParen, times, minus] rest) (gs : List Goal) :
    Reading.told ⟨.statement :: gs, ts ++ rest⟩ = s.events ++ Reading.told ⟨gs, rest⟩ := by
  induction h generalizing rest gs with
  | @read x w o t c hw ho ht hc =>
      have hm : Goal.statement.move (w :: o :: t :: c :: rest) =
          .shift [] (transferGoals .readStatement) := by
        simp [Goal.move, hw]
      simp only [List.cons_append, List.nil_append]
      rw [told_of_shift hm, List.nil_append, told_transfer ho ht hc]
      rfl
  | @write x w o t c hw ho ht hc =>
      have hm : Goal.statement.move (w :: o :: t :: c :: rest) =
          .shift [] (transferGoals .writeStatement) := by
        simp [Goal.move, hw]
      simp only [List.cons_append, List.nil_append]
      rw [told_of_shift hm, List.nil_append, told_transfer ho ht hc]
      rfl
  | @assignment x e t a es ht ha he =>
      have hm : Goal.statement.move (t :: a :: (es ++ rest)) =
          .keep [] [.variable, .expect .assign .assignment, .expression] := by
        simp [Goal.move, ht.kind]
      simp only [List.cons_append]
      rw [told_of_keep hm]
      simp only [List.cons_append, List.nil_append]
      rw [told_variable ht, told_expect ha, told_expression he hrest]
      rfl
  | @conditional d e s u i r w l ds es ss us hi hd hr he hw hs hl hu ihs ihu =>
      have hm : Goal.statement.move (i :: (ds ++ r :: (es ++ w :: (ss ++ l :: (us ++ rest))))) =
          .shift [] conditionalGoals := by
        simp [Goal.move, hi]
      have hrel : Goal.relation.move (r :: (es ++ w :: (ss ++ l :: (us ++ rest)))) =
          .shift [] [] := by
        simp [Goal.move, hr]
      have hstop : r.kind ∉ [leftParen, times, minus] := by
        intro hmem
        rcases List.mem_cons.mp hmem with hk | hmem
        · simp [hk, isRelational] at hr
        · rcases List.mem_cons.mp hmem with hk | hmem
          · simp [hk, isRelational] at hr
          · simp [List.mem_singleton.mp hmem, isRelational] at hr
      simp only [List.cons_append, List.append_assoc]
      rw [told_of_shift hm]
      simp only [conditionalGoals, List.cons_append, List.nil_append]
      rw [told_expression hd (stops_cons hstop), told_of_shift hrel]
      simp only [List.nil_append]
      rw [told_expression he (stops_cons (by simp [hw])), told_expect hw,
        ihs (stops_cons (by simp [hl])), told_expect hl, ihu hrest]
      simp [Syntax.Statement.events]

theorem told_statements {ss : Syntax.Statements} {ts : List Token} (h : ss.Spells ts)
    {rest : List Token} (hrest : Stops [leftParen, times, minus, semicolon] rest)
    (gs : List Goal) :
    Reading.told ⟨.statements :: gs, ts ++ rest⟩ = ss.events ++ Reading.told ⟨gs, rest⟩ := by
  induction h with
  | last hs =>
      rw [Repeats.statements.told_list, told_statement hs (hrest.mono (by simp)),
        Repeats.statements.told_stop (hrest.mono (by simp))]
      rfl
  | @more s ss m us vs hs hm _ ih =>
      rw [Repeats.statements.told_list, List.append_assoc, List.cons_append,
        told_statement hs (stops_cons (by simp [hm])), Repeats.statements.told_more hm, ih,
        ← List.append_assoc]
      rfl

def statementStarts : List TokenKind := [readWord, writeWord, identifier, ifWord]

theorem exists_start_of_statements {ss : Syntax.Statements} {ts : List Token} (h : ss.Spells ts) :
    ∃ t us, ts = t :: us ∧ t.kind ∈ statementStarts := by
  have hstatement : ∀ {s : Syntax.Statement} {us : List Token}, s.Spells us →
      ∃ t vs, us = t :: vs ∧ t.kind ∈ statementStarts := by
    intro s us hs
    cases hs with
    | read hw => exact ⟨_, _, rfl, by simp [hw, statementStarts]⟩
    | write hw => exact ⟨_, _, rfl, by simp [hw, statementStarts]⟩
    | assignment ht => exact ⟨_, _, rfl, by simp [ht.kind, statementStarts]⟩
    | conditional hi => exact ⟨_, _, rfl, by simp [hi, statementStarts]⟩
  cases h with
  | last hs => exact hstatement hs
  | more hs =>
      obtain ⟨t, vs, rfl, ht⟩ := hstatement hs
      exact ⟨t, _, rfl, ht⟩

/-- Declarations do not go on with a statement. -/
theorem stops_statements {ss : Syntax.Statements} {ts : List Token} (h : ss.Spells ts)
    (rest : List Token) : Stops [integerWord, semicolon] (ts ++ rest) := by
  have hdisjoint : ∀ k ∈ statementStarts, k ∉ [integerWord, semicolon] := by decide
  obtain ⟨t, us, rfl, ht⟩ := exists_start_of_statements h
  exact stops_cons (hdisjoint _ ht)

/-! ## Declarations -/

mutual

theorem told_declaration {d : Syntax.Declaration} {ts : List Token} (h : d.Spells ts)
    (rest : List Token) (gs : List Goal) :
    Reading.told ⟨.declaration :: gs, ts ++ rest⟩ = d.events ++ Reading.told ⟨gs, rest⟩ := by
  match h with
  | @Syntax.Declaration.Spells.variable x i t hi ht =>
      have hm : Goal.declaration.move (i :: t :: rest) =
          .shift [] [.declaredName, .variable] := by
        simp [Goal.move, hi, ht.kind]
      have hname : Goal.declaredName.move (t :: rest) = .keep [.declare x] [] := by
        simp [Goal.move, ht.lexeme]
      simp only [List.cons_append, List.nil_append]
      rw [told_of_shift hm]
      simp only [List.cons_append, List.nil_append]
      rw [told_of_keep hname, List.nil_append, told_variable ht]
      rfl
  | @Syntax.Declaration.Spells.function r f p ds ss i w t o q c m b e us vs hi hr hw ht ho hq hc hs
      hb hds hss he =>
      have hm : Goal.declaration.move
          (i :: w :: t :: o :: q :: c :: m :: b :: (us ++ (vs ++ (e :: rest)))) =
          .shift [] (functionGoals r) := by
        simp [Goal.move, hi, hw, hr]
      have hname : (Goal.functionName r).move
          (t :: o :: q :: c :: m :: b :: (us ++ (vs ++ (e :: rest)))) = .shift [.enter f r] [] := by
        simp [Goal.move, ht.kind, ht.lexeme]
      have hparameter : Goal.parameter.move (q :: c :: m :: b :: (us ++ (vs ++ (e :: rest)))) =
          .shift [.parameter (some p)] [] := by
        simp [Goal.move, hq.kind, hq.lexeme]
      have hleave : Goal.endOfFunction.move rest = .keep [.leave] [] := rfl
      -- neither the statements nor the word behind them go on with what stands before
      have hbody := stops_statements hss (e :: rest)
      have hend : Stops [leftParen, times, minus, semicolon] (e :: rest) :=
        stops_cons (by simp [he])
      simp only [List.cons_append, List.append_assoc, List.nil_append]
      rw [told_of_shift hm]
      simp only [functionGoals, List.cons_append, List.nil_append]
      rw [told_expect hw, told_of_shift hname, List.nil_append, told_expect ho,
        told_of_shift hparameter, List.nil_append, told_expect hc, told_expect hs, told_expect hb,
        told_declarations hds hbody, told_statements hss hend, told_expect he, told_of_keep hleave]
      simp [Syntax.Declaration.events]

theorem told_declarations {ds : Syntax.Declarations} {ts : List Token} (h : ds.Spells ts)
    {rest : List Token} (hrest : Stops [integerWord, semicolon] rest) (gs : List Goal) :
    Reading.told ⟨.declarations :: gs, ts ++ rest⟩ = ds.events ++ Reading.told ⟨gs, rest⟩ := by
  match h with
  | .none =>
      have hm : Goal.declaration.move rest = .keep [] [] :=
        if_neg (hrest integerWord (by simp))
      rw [Repeats.declarations.told_list, List.nil_append, told_of_keep hm]
      exact Repeats.declarations.told_stop (hrest.mono (by simp))
  | .last hd =>
      rw [Repeats.declarations.told_list, told_declaration hd,
        Repeats.declarations.told_stop (hrest.mono (by simp))]
      rfl
  | @Syntax.Declarations.Spells.skip ds m us hm hds =>
      have hmove : Goal.declaration.move (m :: (us ++ rest)) = .keep [] [] := by
        simp [Goal.move, hm]
      rw [Repeats.declarations.told_list, List.cons_append, told_of_keep hmove]
      simp only [List.nil_append]
      rw [Repeats.declarations.told_more hm, told_declarations hds hrest]
      rfl
  | @Syntax.Declarations.Spells.more d ds m us vs hd hm hds =>
      rw [Repeats.declarations.told_list, List.append_assoc, told_declaration hd, List.cons_append,
        Repeats.declarations.told_more hm, told_declarations hds hrest, ← List.append_assoc]
      rfl

end

/-- Reading a whole program tells of the names in its syntax tree. -/
theorem told_program {p : Syntax.Program} {ts : List Token} (h : p.Spells ts) :
    Reading.told ⟨programGoals, ts⟩ = p.events := by
  cases h with
  | @block ds ss b e us vs hb hds hss he =>
      have hm : Goal.endOfProgram.move [] = .keep [] [] := rfl
      have hbody := stops_statements hss [e]
      have hend : Stops [leftParen, times, minus, semicolon] [e] := stops_cons (by simp [he])
      rw [programGoals, told_accept hb, told_declarations hds hbody, told_statements hss hend,
        told_accept he, told_of_keep hm, List.append_nil, told_nil]
      simp [Syntax.Program.events]

end Grammar

end BlockLang
