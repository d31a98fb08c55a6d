import BlockLang.Proofs.Grammar.Derivation

/-!
# Syntax trees

A syntax tree is the structure of a program with the names that occur in it. A tree is spelled by
the sequences of tokens that have its structure and its names, and every sequence of tokens whose
kinds the grammar derives spells a tree.
-/

namespace BlockLang.Syntax

open Grammar (kinds)
open TokenKind

mutual

inductive Factor where
  | name (x : Text)
  | number
  | call (f : Text) (argument : Expression)

inductive Term where
  | factor (f : Factor)
  | product (f : Factor) (t : Term)

inductive Expression where
  | term (t : Term)
  | difference (t : Term) (e : Expression)

end

inductive Statement where
  | read (x : Text)
  | write (x : Text)
  | assignment (x : Text) (e : Expression)
  | conditional (left right : Expression) (yes no : Statement)

inductive Statements where
  | last (s : Statement)
  | more (s : Statement) (ss : Statements)

mutual

inductive Declaration where
  | variable (x : Text)
  /-- A function with the word for its return type, its parameter and its body. -/
  | function (returnType f p : Text) (ds : Declarations) (ss : Statements)

inductive Declarations where
  | none
  | last (d : Declaration)
  | skip (ds : Declarations)
  | more (d : Declaration) (ds : Declarations)

end

structure Program where
  declarations : Declarations
  statements : Statements

/-! ## Spelling -/

/-- An identifier with a lexeme. -/
structure Names (t : Token) (x : Text) : Prop where
  kind : t.kind = identifier
  lexeme : t.lexeme = x

mutual

inductive Factor.Spells : Factor → List Token → Prop
  | name {x : Text} {t : Token} (ht : Names t x) : Factor.Spells (.name x) [t]
  | number {t : Token} (ht : t.kind = constant) : Factor.Spells .number [t]
  | call {f : Text} {e : Expression} {t o c : Token} {es : List Token} (ht : Names t f)
      (ho : o.kind = leftParen) (he : Expression.Spells e es) (hc : c.kind = rightParen) :
      Factor.Spells (.call f e) (t :: o :: (es ++ [c]))

inductive Term.Spells : Term → List Token → Prop
  | factor {f : Factor} {fs : List Token} (hf : Factor.Spells f fs) : Term.Spells (.factor f) fs
  | product {f : Factor} {u : Term} {m : Token} {fs us : List Token} (hf : Factor.Spells f fs)
      (hm : m.kind = times) (hu : Term.Spells u us) : Term.Spells (.product f u) (fs ++ m :: us)

inductive Expression.Spells : Expression → List Token → Prop
  | term {u : Term} {us : List Token} (hu : Term.Spells u us) : Expression.Spells (.term u) us
  | difference {u : Term} {e : Expression} {m : Token} {us es : List Token}
      (hu : Term.Spells u us) (hm : m.kind = minus) (he : Expression.Spells e es) :
      Expression.Spells (.difference u e) (us ++ m :: es)

end

inductive Statement.Spells : Statement → List Token → Prop
  | read {x : Text} {w o t c : Token} (hw : w.kind = readWord) (ho : o.kind = leftParen)
      (ht : Names t x) (hc : c.kind = rightParen) : Statement.Spells (.read x) [w, o, t, c]
  | write {x : Text} {w o t c : Token} (hw : w.kind = writeWord) (ho : o.kind = leftParen)
      (ht : Names t x) (hc : c.kind = rightParen) : Statement.Spells (.write x) [w, o, t, c]
  | assignment {x : Text} {e : Expression} {t a : Token} {es : List Token} (ht : Names t x)
      (ha : a.kind = assign) (he : e.Spells es) :
      Statement.Spells (.assignment x e) (t :: a :: es)
  | conditional {d e : Expression} {s u : Statement} {i r w l : Token}
      {ds es ss us : List Token} (hi : i.kind = ifWord) (hd : d.Spells ds)
      (hr : r.kind.isRelational) (he : e.Spells es) (hw : w.kind = thenWord)
      (hs : Statement.Spells s ss) (hl : l.kind = elseWord) (hu : Statement.Spells u us) :
      Statement.Spells (.conditional d e s u) (i :: (ds ++ r :: (es ++ w :: (ss ++ l :: us))))

inductive Statements.Spells : Statements → List Token → Prop
  | last {s : Statement} {us : List Token} (hs : s.Spells us) : Statements.Spells (.last s) us
  | more {s : Statement} {ss : Statements} {m : Token} {us vs : List Token} (hs : s.Spells us)
      (hm : m.kind = semicolon) (hss : Statements.Spells ss vs) :
      Statements.Spells (.more s ss) (us ++ m :: vs)

mutual

inductive Declaration.Spells : Declaration → List Token → Prop
  | variable {x : Text} {i t : Token} (hi : i.kind = integerWord) (ht : Names t x) :
      Declaration.Spells (.variable x) [i, t]
  | function {r f p : Text} {ds : Declarations} {ss : Statements} {i w t o q c m b e : Token}
      {us vs : List Token} (hi : i.kind = integerWord) (hr : i.lexeme = r)
      (hw : w.kind = functionWord) (ht : Names t f) (ho : o.kind = leftParen) (hq : Names q p)
      (hc : c.kind = rightParen) (hm : m.kind = semicolon) (hb : b.kind = beginWord)
      (hds : Declarations.Spells ds us) (hss : ss.Spells vs) (he : e.kind = endWord) :
      Declaration.Spells (.function r f p ds ss)
        (i :: w :: t :: o :: q :: c :: m :: b :: (us ++ (vs ++ [e])))

inductive Declarations.Spells : Declarations → List Token → Prop
  | none : Declarations.Spells .none []
  | last {d : Declaration} {us : List Token} (hd : Declaration.Spells d us) :
      Declarations.Spells (.last d) us
  | skip {ds : Declarations} {m : Token} {us : List Token} (hm : m.kind = semicolon)
      (hds : Declarations.Spells ds us) : Declarations.Spells (.skip ds) (m :: us)
  | more {d : Declaration} {ds : Declarations} {m : Token} {us vs : List Token}
      (hd : Declaration.Spells d us) (hm : m.kind = semicolon) (hds : Declarations.Spells ds vs) :
      Declarations.Spells (.more d ds) (us ++ m :: vs)

end

inductive Program.Spells : Program → List Token → Prop
  | block {ds : Declarations} {ss : Statements} {b e : Token} {us vs : List Token}
      (hb : b.kind = beginWord) (hds : ds.Spells us) (hss : ss.Spells vs) (he : e.kind = endWord) :
      Program.Spells ⟨ds, ss⟩ (b :: (us ++ (vs ++ [e])))

/-! ## Trees of derivations -/

theorem kinds_eq_cons {ts : List Token} {k : TokenKind} {ks : List TokenKind}
    (h : kinds ts = k :: ks) : ∃ t us, ts = t :: us ∧ t.kind = k ∧ kinds us = ks :=
  List.map_eq_cons_iff.mp h

theorem kinds_eq_append {ts : List Token} {ks ls : List TokenKind} (h : kinds ts = ks ++ ls) :
    ∃ us vs, ts = us ++ vs ∧ kinds us = ks ∧ kinds vs = ls :=
  List.map_eq_append_iff.mp h

theorem kinds_eq_nil {ts : List Token} (h : kinds ts = []) : ts = [] := List.map_eq_nil_iff.mp h

mutual

theorem exists_factor {ts : List Token} {ks : List TokenKind} (h : Grammar.IsFactor ks)
    (hts : kinds ts = ks) : ∃ f, Factor.Spells f ts := by
  match h with
  | .name =>
      obtain ⟨t, us, rfl, ht, hus⟩ := kinds_eq_cons hts
      obtain rfl := kinds_eq_nil hus
      exact ⟨_, .name ⟨ht, rfl⟩⟩
  | .number =>
      obtain ⟨t, us, rfl, ht, hus⟩ := kinds_eq_cons hts
      obtain rfl := kinds_eq_nil hus
      exact ⟨_, .number ht⟩
  | .call he =>
      simp only [List.cons_append] at hts
      obtain ⟨t, ts, rfl, ht, hts⟩ := kinds_eq_cons hts
      obtain ⟨o, ts, rfl, ho, hts⟩ := kinds_eq_cons hts
      obtain ⟨es, ts, rfl, hes, hts⟩ := kinds_eq_append hts
      obtain ⟨c, ts, rfl, hc, hts⟩ := kinds_eq_cons hts
      obtain rfl := kinds_eq_nil hts
      obtain ⟨e, he⟩ := exists_expression he hes
      exact ⟨_, .call ⟨ht, rfl⟩ ho he hc⟩

theorem exists_term {ts : List Token} {ks : List TokenKind} (h : Grammar.IsTerm ks)
    (hts : kinds ts = ks) : ∃ u, Term.Spells u ts := by
  match h with
  | .factor hf =>
      obtain ⟨f, hf⟩ := exists_factor hf hts
      exact ⟨_, .factor hf⟩
  | .product hf hu =>
      obtain ⟨fs, us, rfl, hfs, hus⟩ := kinds_eq_append hts
      obtain ⟨m, us, rfl, hm, hus⟩ := kinds_eq_cons hus
      obtain ⟨f, hf⟩ := exists_factor hf hfs
      obtain ⟨u, hu⟩ := exists_term hu hus
      exact ⟨_, .product hf hm hu⟩

theorem exists_expression {ts : List Token} {ks : List TokenKind} (h : Grammar.IsExpression ks)
    (hts : kinds ts = ks) : ∃ e, Expression.Spells e ts := by
  match h with
  | .term hu =>
      obtain ⟨u, hu⟩ := exists_term hu hts
      exact ⟨_, .term hu⟩
  | .difference hu he =>
      obtain ⟨us, es, rfl, hus, hes⟩ := kinds_eq_append hts
      obtain ⟨m, es, rfl, hm, hes⟩ := kinds_eq_cons hes
      obtain ⟨u, hu⟩ := exists_term hu hus
      obtain ⟨e, he⟩ := exists_expression he hes
      exact ⟨_, .difference hu hm he⟩

end

theorem exists_statement {ts : List Token} {ks : List TokenKind} (h : Grammar.IsStatement ks)
    (hts : kinds ts = ks) : ∃ s, Statement.Spells s ts := by
  induction h generalizing ts with
  | read =>
      obtain ⟨w, us, rfl, hw, hus⟩ := kinds_eq_cons hts
      obtain ⟨o, us, rfl, ho, hus⟩ := kinds_eq_cons hus
      obtain ⟨t, us, rfl, ht, hus⟩ := kinds_eq_cons hus
      obtain ⟨c, us, rfl, hc, hus⟩ := kinds_eq_cons hus
      obtain rfl := kinds_eq_nil hus
      exact ⟨_, .read hw ho ⟨ht, rfl⟩ hc⟩
  | write =>
      obtain ⟨w, us, rfl, hw, hus⟩ := kinds_eq_cons hts
      obtain ⟨o, us, rfl, ho, hus⟩ := kinds_eq_cons hus
      obtain ⟨t, us, rfl, ht, hus⟩ := kinds_eq_cons hus
      obtain ⟨c, us, rfl, hc, hus⟩ := kinds_eq_cons hus
      obtain rfl := kinds_eq_nil hus
      exact ⟨_, .write hw ho ⟨ht, rfl⟩ hc⟩
  | assignment he =>
      obtain ⟨t, us, rfl, ht, hus⟩ := kinds_eq_cons hts
      obtain ⟨a, es, rfl, ha, hes⟩ := kinds_eq_cons hus
      obtain ⟨e, he⟩ := exists_expression he hes
      exact ⟨_, .assignment ⟨ht, rfl⟩ ha he⟩
  | conditional hd hr he _ _ ihs ihu =>
      simp only [List.cons_append, List.append_assoc] at hts
      obtain ⟨i, ts, rfl, hi, hts⟩ := kinds_eq_cons hts
      obtain ⟨ds, ts, rfl, hds, hts⟩ := kinds_eq_append hts
      obtain ⟨r, ts, rfl, hrel, hts⟩ := kinds_eq_cons hts
      obtain ⟨es, ts, rfl, hes, hts⟩ := kinds_eq_append hts
      obtain ⟨w, ts, rfl, hw, hts⟩ := kinds_eq_cons hts
      obtain ⟨ss, ts, rfl, hss, hts⟩ := kinds_eq_append hts
      obtain ⟨l, us, rfl, hl, hus⟩ := kinds_eq_cons hts
      obtain ⟨d, hd⟩ := exists_expression hd hds
      obtain ⟨e, he⟩ := exists_expression he hes
      obtain ⟨s, hs⟩ := ihs hss
      obtain ⟨u, hu⟩ := ihu hus
      exact ⟨_, .conditional hi hd (hrel ▸ hr) he hw hs hl hu⟩

theorem exists_statements {ts : List Token} {ks : List TokenKind} (h : Grammar.IsStatements ks)
    (hts : kinds ts = ks) : ∃ ss, Statements.Spells ss ts := by
  induction h generalizing ts with
  | last hs =>
      obtain ⟨s, hs⟩ := exists_statement hs hts
      exact ⟨_, .last hs⟩
  | more hs _ ih =>
      obtain ⟨us, vs, rfl, hus, hvs⟩ := kinds_eq_append hts
      obtain ⟨m, vs, rfl, hm, hvs⟩ := kinds_eq_cons hvs
      obtain ⟨s, hs⟩ := exists_statement hs hus
      obtain ⟨ss, hss⟩ := ih hvs
      exact ⟨_, .more hs hm hss⟩

mutual

theorem exists_declaration {ts : List Token} {ks : List TokenKind}
    (h : Grammar.IsDeclaration ks) (hts : kinds ts = ks) : ∃ d, Declaration.Spells d ts := by
  match h with
  | .variable =>
      obtain ⟨i, us, rfl, hi, hus⟩ := kinds_eq_cons hts
      obtain ⟨t, us, rfl, ht, hus⟩ := kinds_eq_cons hus
      obtain rfl := kinds_eq_nil hus
      exact ⟨_, .variable hi ⟨ht, rfl⟩⟩
  | .function hds hss =>
      simp only [List.cons_append, List.append_assoc] at hts
      obtain ⟨i, ts, rfl, hi, hts⟩ := kinds_eq_cons hts
      obtain ⟨w, ts, rfl, hw, hts⟩ := kinds_eq_cons hts
      obtain ⟨t, ts, rfl, ht, hts⟩ := kinds_eq_cons hts
      obtain ⟨o, ts, rfl, ho, hts⟩ := kinds_eq_cons hts
      obtain ⟨q, ts, rfl, hq, hts⟩ := kinds_eq_cons hts
      obtain ⟨c, ts, rfl, hc, hts⟩ := kinds_eq_cons hts
      obtain ⟨m, ts, rfl, hm, hts⟩ := kinds_eq_cons hts
      obtain ⟨b, ts, rfl, hb, hts⟩ := kinds_eq_cons hts
      obtain ⟨us, ts, rfl, hus, hts⟩ := kinds_eq_append hts
      obtain ⟨vs, ts, rfl, hvs, hts⟩ := kinds_eq_append hts
      obtain ⟨e, ts, rfl, he, hts⟩ := kinds_eq_cons hts
      obtain rfl := kinds_eq_nil hts
      obtain ⟨ds, hds⟩ := exists_declarations hds hus
      obtain ⟨ss, hss⟩ := exists_statements hss hvs
      exact ⟨_, .function hi rfl hw ⟨ht, rfl⟩ ho ⟨hq, rfl⟩ hc hm hb hds hss he⟩

theorem exists_declarations {ts : List Token} {ks : List TokenKind}
    (h : Grammar.IsDeclarations ks) (hts : kinds ts = ks) : ∃ ds, Declarations.Spells ds ts := by
  match h with
  | .none =>
      obtain rfl := kinds_eq_nil hts
      exact ⟨_, .none⟩
  | .last hd =>
      obtain ⟨d, hd⟩ := exists_declaration hd hts
      exact ⟨_, .last hd⟩
  | .skip hds =>
      obtain ⟨m, us, rfl, hm, hus⟩ := kinds_eq_cons hts
      obtain ⟨ds, hds⟩ := exists_declarations hds hus
      exact ⟨_, .skip hm hds⟩
  | .more hd hds =>
      obtain ⟨us, vs, rfl, hus, hvs⟩ := kinds_eq_append hts
      obtain ⟨m, vs, rfl, hm, hvs⟩ := kinds_eq_cons hvs
      obtain ⟨d, hd⟩ := exists_declaration hd hus
      obtain ⟨ds, hds⟩ := exists_declarations hds hvs
      exact ⟨_, .more hd hm hds⟩

end

/-- Tokens whose kinds the grammar derives spell a program. -/
theorem exists_program {ts : List Token} (h : Grammar.IsProgram (kinds ts)) :
    ∃ p, Program.Spells p ts := by
  generalize hts : kinds ts = ks at h
  cases h with
  | block hds hss =>
      simp only [List.cons_append, List.append_assoc] at hts
      obtain ⟨b, ts, rfl, hb, hts⟩ := kinds_eq_cons hts
      obtain ⟨us, ts, rfl, hus, hts⟩ := kinds_eq_append hts
      obtain ⟨vs, ts, rfl, hvs, hts⟩ := kinds_eq_append hts
      obtain ⟨e, ts, rfl, he, hts⟩ := kinds_eq_cons hts
      obtain rfl := kinds_eq_nil hts
      obtain ⟨ds, hds⟩ := exists_declarations hds hus
      obtain ⟨ss, hss⟩ := exists_statements hss hvs
      exact ⟨_, .block hb hds hss he⟩

end BlockLang.Syntax
