import BlockLang.Analysis.Session
import BlockLang.Proofs.Syntax.Tree

/-!
# Entries of a syntax tree

The entries that the declarations of a syntax tree stand for, in the order of the source text: a
function is an entry among the procedures, and brings two variables with it, the slot for its result
and its parameter. An entry knows its position by the number of those that are declared before it.
-/

namespace BlockLang.Syntax

/-- Procedures and variables, both in the order of their declaration. -/
structure Entries where
  procedureRows : List Procedure
  variableRows : List Variable
  deriving DecidableEq, Repr

namespace Entries

instance : EmptyCollection Entries := ⟨⟨[], []⟩⟩

instance : Append Entries :=
  ⟨fun d e => ⟨d.procedureRows ++ e.procedureRows, d.variableRows ++ e.variableRows⟩⟩

/-- The entry of a function that is declared in `owner`, on the level below it, with those of its
result and its parameter; `n` procedures and `v` variables come before them. -/
def ofHeader (owner : ProcId) (level n v : Nat) (returnType f p : Text) : Entries where
  procedureRows := [⟨f, returnType, level + 1, v + 1, v + 2, some owner⟩]
  variableRows := [⟨f, ⟨n⟩, .localVar, returnType, level + 1, v⟩,
    ⟨p, ⟨n⟩, .parameter, integerType, level + 1, v + 1⟩]

end Entries

mutual

/-- The entries of a declaration in `owner`, which is on the given level; `n` procedures and `v`
variables are declared before it. -/
def Declaration.entries (owner : ProcId) (level n v : Nat) : Declaration → Entries
  | .variable x => ⟨[], [⟨x, owner, .localVar, integerType, level, v⟩]⟩
  | .function r f p ds _ =>
    .ofHeader owner level n v r f p ++ Declarations.entries ⟨n⟩ (level + 1) (n + 1) (v + 2) ds

def Declarations.entries (owner : ProcId) (level n v : Nat) : Declarations → Entries
  | .none => ∅
  | .last d => Declaration.entries owner level n v d
  | .skip ds => Declarations.entries owner level n v ds
  | .more d ds =>
    let e := Declaration.entries owner level n v d
    e ++ Declarations.entries owner level (n + e.procedureRows.length)
      (v + e.variableRows.length) ds

end

/-- The entries of a program, behind that of the main procedure. -/
def Program.entries (p : Program) : Entries := p.declarations.entries SymbolTable.root 0 1 0

/-! ## Ranges of parameters -/

namespace Entries

variable {d e : Entries} {n v : Nat}

@[simp] theorem procedureRows_empty : (∅ : Entries).procedureRows = [] := rfl

@[simp] theorem variableRows_empty : (∅ : Entries).variableRows = [] := rfl

@[simp] theorem procedureRows_append (d e : Entries) :
    (d ++ e).procedureRows = d.procedureRows ++ e.procedureRows := rfl

@[simp] theorem variableRows_append (d e : Entries) :
    (d ++ e).variableRows = d.variableRows ++ e.variableRows := rfl

theorem append_empty (e : Entries) : e ++ ∅ = e :=
  congr (congrArg mk (List.append_nil _)) (List.append_nil _)

/-- Behind `n` procedures and `v` variables, every procedure has its parameter where its range says.
-/
def Ranged (n v : Nat) (e : Entries) : Prop :=
  ∀ i q, e.procedureRows[i]? = some q → ∃ j w, e.variableRows[j]? = some w ∧ w.kind = .parameter ∧
    w.owner = ⟨n + i⟩ ∧ q.firstParameter = v + j ∧ q.lastParameter = v + j + 1

theorem Ranged.append (hd : d.Ranged n v)
    (he : e.Ranged (n + d.procedureRows.length) (v + d.variableRows.length)) :
    (d ++ e).Ranged n v := by
  intro i q hq
  rw [procedureRows_append] at hq
  rcases Nat.lt_or_ge i d.procedureRows.length with hi | hi
  · rw [List.getElem?_append_left hi] at hq
    obtain ⟨j, w, hw, hrest⟩ := hd i q hq
    have hj : j < d.variableRows.length := (List.getElem?_eq_some_iff.mp hw).1
    exact ⟨j, w, by rw [variableRows_append, List.getElem?_append_left hj, hw], hrest⟩
  · rw [List.getElem?_append_right hi] at hq
    obtain ⟨j, w, hw, hkind, howner, hfirst, hlast⟩ := he _ q hq
    refine ⟨d.variableRows.length + j, w, ?_, hkind, ?_, ?_, ?_⟩
    · rw [variableRows_append, List.getElem?_append_right (Nat.le_add_right ..),
        Nat.add_sub_cancel_left, hw]
    · rw [howner, Nat.add_assoc, Nat.add_sub_cancel' hi]
    · rw [hfirst, Nat.add_assoc]
    · rw [hlast, Nat.add_assoc v]

theorem ranged_ofHeader (owner : ProcId) (level n v : Nat) (r f p : Text) :
    (ofHeader owner level n v r f p).Ranged n v := by
  intro i q hq
  cases i with
  | zero =>
      cases hq
      exact ⟨1, _, rfl, rfl, rfl, rfl, rfl⟩
  | succ i => cases hq

end Entries

mutual

theorem Declaration.ranged_entries (d : Declaration) (owner : ProcId) (level n v : Nat) :
    (d.entries owner level n v).Ranged n v := by
  match d with
  | .variable x =>
      rintro i q ⟨⟩
  | .function r f p ds ss =>
      exact (Entries.ranged_ofHeader owner level n v r f p).append
        (Declarations.ranged_entries ds ⟨n⟩ (level + 1) (n + 1) (v + 2))

theorem Declarations.ranged_entries (ds : Declarations) (owner : ProcId) (level n v : Nat) :
    (ds.entries owner level n v).Ranged n v := by
  match ds with
  | .none =>
      rintro i q ⟨⟩
  | .last d => exact Declaration.ranged_entries d owner level n v
  | .skip ds => exact Declarations.ranged_entries ds owner level n v
  | .more d ds =>
      exact (Declaration.ranged_entries d owner level n v).append
        (Declarations.ranged_entries ds owner level _ _)

end

end BlockLang.Syntax
