import BlockLang.Analysis.Fault
import BlockLang.Proofs.Grammar.Completeness
import Mathlib.Data.List.Infix

/-!
# Scoping of a syntax tree

The names in a syntax tree are declarations and uses at places: a place is given by the names of the
functions around it, so that functions of one name in one place share the places inside them. What
was declared before decides whether an occurrence is a fault.
-/

namespace BlockLang.Syntax

open Grammar (Event)

/-! ## Occurrences -/

/-- What a name is doing where it stands. -/
inductive Mention where
  | variable (x : Text)
  | function (f : Text)
  | parameter (p : Text)
  | use (x : Text)
  | call (f : Text)
  deriving DecidableEq, Repr

/-- A mention and the functions around it, from the inside outward. -/
structure Occurrence where
  mention : Mention
  scope : List Text
  deriving DecidableEq, Repr

mutual

def Factor.mentions : Factor → List Mention
  | .name x => [.use x]
  | .number => []
  | .call f e => .call f :: Expression.mentions e

def Term.mentions : Term → List Mention
  | .factor f => Factor.mentions f
  | .product f u => Factor.mentions f ++ Term.mentions u

def Expression.mentions : Expression → List Mention
  | .term u => Term.mentions u
  | .difference u e => Term.mentions u ++ Expression.mentions e

end

def Statement.mentions : Statement → List Mention
  | .read x | .write x => [.use x]
  | .assignment x e => .use x :: e.mentions
  | .conditional d e s u =>
    d.mentions ++ (e.mentions ++ (Statement.mentions s ++ Statement.mentions u))

def Statements.mentions : Statements → List Mention
  | .last s => s.mentions
  | .more s ss => s.mentions ++ Statements.mentions ss

def occurrencesIn (π : List Text) (ms : List Mention) : List Occurrence := ms.map fun m => ⟨m, π⟩

theorem occurrencesIn_append (π : List Text) (ms ns : List Mention) :
    occurrencesIn π (ms ++ ns) = occurrencesIn π ms ++ occurrencesIn π ns := List.map_append

mutual

/-- A function is declared outside, its parameter and all in its body are inside. -/
def Declaration.occurrences (π : List Text) : Declaration → List Occurrence
  | .variable x => [⟨.variable x, π⟩]
  | .function _ f p ds ss =>
    ⟨.function f, π⟩ :: ⟨.parameter p, f :: π⟩ ::
      (Declarations.occurrences (f :: π) ds ++ occurrencesIn (f :: π) ss.mentions)

def Declarations.occurrences (π : List Text) : Declarations → List Occurrence
  | .none => []
  | .last d => Declaration.occurrences π d
  | .skip ds => Declarations.occurrences π ds
  | .more d ds => Declaration.occurrences π d ++ Declarations.occurrences π ds

end

/-- The occurrences of names in a program, in the order of the source text. -/
def Program.occurrences (p : Program) : List Occurrence :=
  p.declarations.occurrences [] ++ occurrencesIn [] p.statements.mentions

/-! ## Faults -/

/-- A function is declared directly in a place. -/
def HasFunction (past : List Occurrence) (f : Text) (π : List Text) : Prop :=
  ⟨.function f, π⟩ ∈ past

/-- A place has a local variable: one that is declared there, or the slot for the result of the
function that the place is inside of. -/
def HasLocal (past : List Occurrence) (x : Text) (π : List Text) : Prop :=
  ⟨.variable x, π⟩ ∈ past ∨ (π.head? = some x ∧ HasFunction past x π.tail)

/-- The function that a place is inside of has a parameter. -/
def HasParameter (past : List Occurrence) (x : Text) (π : List Text) : Prop :=
  ⟨.parameter x, π⟩ ∈ past

instance (past : List Occurrence) (f : Text) (π : List Text) : Decidable (HasFunction past f π) :=
  inferInstanceAs (Decidable (_ ∈ past))

instance (past : List Occurrence) (x : Text) (π : List Text) : Decidable (HasLocal past x π) :=
  inferInstanceAs (Decidable (_ ∨ _))

instance (past : List Occurrence) (x : Text) (π : List Text) : Decidable (HasParameter past x π) :=
  inferInstanceAs (Decidable (_ ∈ past))

/-- The fault of an occurrence behind those in `past`. A variable is looked up in the place of its
use and in those around it, and so is a function. -/
def Occurrence.fault? (past : List Occurrence) : Occurrence → Option ScopeFault
  | ⟨.variable x, π⟩ => if HasLocal past x π then some (.duplicateVariable x) else none
  | ⟨.function f, π⟩ => if HasFunction past f π then some (.duplicateFunction f) else none
  | ⟨.parameter _, _⟩ => none
  | ⟨.use x, π⟩ =>
    if ∃ σ ∈ π.tails, HasLocal past x σ ∨ HasParameter past x σ then none
    else some (.undefinedVariable x)
  | ⟨.call f, π⟩ =>
    if ∃ σ ∈ π.tails, HasFunction past f σ then none else some (.undefinedFunction f)

/-- The faults of some occurrences one after the other, behind those in `past`. -/
def scopeFaults (past : List Occurrence) : List Occurrence → List ScopeFault
  | [] => []
  | o :: os => (o.fault? past).toList ++ scopeFaults (o :: past) os

/-- The scope faults of a program, in the order of the source text. -/
def Program.scopeFaults (p : Program) : List ScopeFault := Syntax.scopeFaults [] p.occurrences

/-! ## Declarations decide -/

def Mention.declares : Mention → Bool
  | .variable _ | .function _ | .parameter _ => true
  | .use _ | .call _ => false

variable {past past' : List Occurrence}

/-- The same declarations have been made. -/
def Agree (past past' : List Occurrence) : Prop :=
  ∀ o : Occurrence, o.mention.declares → (o ∈ past ↔ o ∈ past')

theorem Agree.symm (h : Agree past past') : Agree past' past := fun o ho => (h o ho).symm

theorem Agree.fault?_eq (h : Agree past past') (o : Occurrence) :
    o.fault? past = o.fault? past' := by
  have hfunction : ∀ f π, HasFunction past f π ↔ HasFunction past' f π := fun f π => h _ rfl
  have hlocal : ∀ x π, HasLocal past x π ↔ HasLocal past' x π := fun x π =>
    or_congr (h _ rfl) (and_congr_right fun _ => hfunction x _)
  have hparameter : ∀ x π, HasParameter past x π ↔ HasParameter past' x π := fun x π => h _ rfl
  obtain ⟨m, π⟩ := o
  cases m <;> simp only [Occurrence.fault?, hfunction, hlocal, hparameter]

theorem Agree.cons (h : Agree past past') (o : Occurrence) : Agree (o :: past) (o :: past') := by
  intro u hu
  rw [List.mem_cons, List.mem_cons, h u hu]

theorem agree_cons_of_not_declares {o : Occurrence} (ho : o.mention.declares = false)
    (past : List Occurrence) : Agree (o :: past) past := by
  intro u hu
  have hne : u ≠ o := by
    rintro rfl
    simp [ho] at hu
  simp [hne]

theorem Agree.scopeFaults_eq (h : Agree past past') (os : List Occurrence) :
    scopeFaults past os = scopeFaults past' os := by
  induction os generalizing past past' with
  | nil => rfl
  | cons o os ih => rw [scopeFaults, scopeFaults, h.fault?_eq, ih (h.cons o)]

/-! ## Events and occurrences -/

def occurrence? (π : List Text) : Event → Option Occurrence
  | .declare x => some ⟨.variable x, π⟩
  | .use x => some ⟨.use x, π⟩
  | .call f => some ⟨.call f, π⟩
  | .enter f _ => some ⟨.function f, π⟩
  | .parameter x => x.map fun p => ⟨.parameter p, π⟩
  | .reach _ | .report _ | .leave => none

def placeAfter (π : List Text) : Event → List Text
  | .enter f _ => f :: π
  | .leave => π.tail
  | _ => π

/-- The occurrences that events tell of, from a place on. -/
def occurrencesOf (π : List Text) : List Event → List Occurrence
  | [] => []
  | e :: es => (occurrence? π e).toList ++ occurrencesOf (placeAfter π e) es

mutual

theorem Factor.occurrencesOf_events (f : Factor) (π : List Text) (es : List Event) :
    occurrencesOf π (f.events ++ es) = occurrencesIn π f.mentions ++ occurrencesOf π es := by
  match f with
  | .name x | .number => rfl
  | .call f e => exact congrArg (⟨.call f, π⟩ :: ·) (Expression.occurrencesOf_events e π es)

theorem Term.occurrencesOf_events (u : Term) (π : List Text) (es : List Event) :
    occurrencesOf π (u.events ++ es) = occurrencesIn π u.mentions ++ occurrencesOf π es := by
  match u with
  | .factor f => exact Factor.occurrencesOf_events f π es
  | .product f u =>
      rw [Term.events, List.append_assoc, Factor.occurrencesOf_events f,
        Term.occurrencesOf_events u, Term.mentions, occurrencesIn_append, List.append_assoc]

theorem Expression.occurrencesOf_events (e : Expression) (π : List Text) (es : List Event) :
    occurrencesOf π (e.events ++ es) = occurrencesIn π e.mentions ++ occurrencesOf π es := by
  match e with
  | .term u => exact Term.occurrencesOf_events u π es
  | .difference u e =>
      rw [Expression.events, List.append_assoc, Term.occurrencesOf_events u,
        Expression.occurrencesOf_events e, Expression.mentions, occurrencesIn_append,
        List.append_assoc]

end

theorem Statement.occurrencesOf_events (s : Statement) (π : List Text) (es : List Event) :
    occurrencesOf π (s.events ++ es) = occurrencesIn π s.mentions ++ occurrencesOf π es := by
  induction s generalizing es with
  | read x | write x => rfl
  | assignment x e => exact congrArg (⟨.use x, π⟩ :: ·) (e.occurrencesOf_events π es)
  | conditional d e s u ihs ihu =>
      simp only [Statement.events, Statement.mentions, occurrencesIn_append, List.append_assoc]
      rw [d.occurrencesOf_events, e.occurrencesOf_events, ihs, ihu]

theorem Statements.occurrencesOf_events (ss : Statements) (π : List Text) (es : List Event) :
    occurrencesOf π (ss.events ++ es) = occurrencesIn π ss.mentions ++ occurrencesOf π es := by
  induction ss generalizing es with
  | last s => exact s.occurrencesOf_events π es
  | more s ss ih =>
      simp only [Statements.events, Statements.mentions, occurrencesIn_append, List.append_assoc]
      rw [s.occurrencesOf_events, ih]

/-! ## Declarations and what is told of them -/

/-- Occurrences with the same faults behind any others, and with the same declarations. -/
structure Alike (os us : List Occurrence) : Prop where
  scopeFaults_eq : ∀ past, scopeFaults past os = scopeFaults past us
  agree : Agree os us

variable {os us vs : List Occurrence}

theorem Alike.refl (os : List Occurrence) : Alike os os := ⟨fun _ => rfl, fun _ _ => .rfl⟩

theorem Alike.trans (h : Alike os us) (h' : Alike us vs) : Alike os vs :=
  ⟨fun past => (h.scopeFaults_eq past).trans (h'.scopeFaults_eq past),
    fun o ho => (h.agree o ho).trans (h'.agree o ho)⟩

theorem scopeFaults_append (past os us : List Occurrence) :
    scopeFaults past (os ++ us) = scopeFaults past os ++ scopeFaults (os.reverse ++ past) us := by
  induction os generalizing past with
  | nil => rfl
  | cons o os ih => simp [scopeFaults, ih]

theorem Alike.append_left (h : Alike us vs) (os : List Occurrence) :
    Alike (os ++ us) (os ++ vs) where
  scopeFaults_eq past := by rw [scopeFaults_append, scopeFaults_append, h.scopeFaults_eq]
  agree o ho := by rw [List.mem_append, List.mem_append, h.agree o ho]

/-- A declared variable can be used right away. -/
theorem alike_declared (x : Text) (π : List Text) (os : List Occurrence) :
    Alike (⟨.variable x, π⟩ :: ⟨.use x, π⟩ :: os) (⟨.variable x, π⟩ :: os) where
  scopeFaults_eq past := by
    have hlocal : HasLocal (⟨.variable x, π⟩ :: past) x π := .inl (List.mem_cons_self ..)
    have hfault : (⟨.use x, π⟩ : Occurrence).fault? (⟨.variable x, π⟩ :: past) = none :=
      if_pos ⟨π, (List.mem_tails π π).mpr (List.suffix_refl π), .inl hlocal⟩
    have hagree : Agree (⟨.use x, π⟩ :: ⟨.variable x, π⟩ :: past) (⟨.variable x, π⟩ :: past) :=
      agree_cons_of_not_declares rfl _
    simp only [scopeFaults, hfault, Option.toList_none, List.nil_append, hagree.scopeFaults_eq]
  agree := Agree.cons (agree_cons_of_not_declares rfl os) _

mutual

theorem Declaration.alike_events (d : Declaration) (π : List Text) (es : List Event) :
    Alike (occurrencesOf π (d.events ++ es)) (d.occurrences π ++ occurrencesOf π es) := by
  match d with
  | .variable x => exact alike_declared x π (occurrencesOf π es)
  | .function r f p ds ss =>
      have hds := Declarations.alike_events ds (f :: π) (ss.events ++ (.leave :: es))
      rw [ss.occurrencesOf_events] at hds
      simp only [Declaration.events, Declaration.occurrences, List.cons_append, List.append_assoc,
        List.nil_append]
      exact hds.append_left [⟨.function f, π⟩, ⟨.parameter p, f :: π⟩]

theorem Declarations.alike_events (ds : Declarations) (π : List Text) (es : List Event) :
    Alike (occurrencesOf π (ds.events ++ es)) (ds.occurrences π ++ occurrencesOf π es) := by
  match ds with
  | .none => exact .refl _
  | .last d => exact Declaration.alike_events d π es
  | .skip ds => exact Declarations.alike_events ds π es
  | .more d ds =>
      rw [Declarations.events, Declarations.occurrences, List.append_assoc, List.append_assoc]
      exact (Declaration.alike_events d π (ds.events ++ es)).trans
        ((Declarations.alike_events ds π es).append_left (d.occurrences π))

end

/-- The events of a program tell of the occurrences in its syntax tree. -/
theorem Program.alike_events (p : Program) : Alike (occurrencesOf [] p.events) p.occurrences := by
  have hss := p.statements.occurrencesOf_events [] []
  rw [List.append_nil, occurrencesOf, List.append_nil] at hss
  rw [Program.events, Program.occurrences, ← hss]
  exact p.declarations.alike_events [] p.statements.events

end BlockLang.Syntax
