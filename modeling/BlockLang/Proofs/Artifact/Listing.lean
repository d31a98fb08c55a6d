import BlockLang.Artifact.Listing
import BlockLang.Proofs.Analysis.Census
import BlockLang.Proofs.Analysis.Parameters
import BlockLang.Proofs.Artifact.TokenFile
import BlockLang.Proofs.Lexeme.Respacing
import Mathlib.Algebra.Group.Nat.Defs

/-!
# Listings read back

The columns of a listing are never cut off, so that its rows have the same length only because all
that is listed of a program fits: names are lexemes, and numbers count tokens of the source text.
Then the entries can be read back from the places of the columns.
-/

namespace BlockLang

namespace Listing

open Text (decimal isBlankText lines padLeft unlines)

variable {x : Text} {cs : List Text}

/-! ## Columns -/

/-- A text fits a column: it is not longer, and it can be told from the spaces around it. -/
structure Fits (x : Text) : Prop where
  length_le : x.length ≤ columnWidth
  visible : ∀ c ∈ x, isBlank c = false

/-- Only the characters of the text are looked at, not all there are. -/
instance (x : Text) : Decidable (Fits x) :=
  decidable_of_iff (x.length ≤ columnWidth ∧ x.all (fun c => !isBlank c) = true)
    ⟨fun h => ⟨h.1, by simpa using h.2⟩, fun h => ⟨h.length_le, by simpa using h.visible⟩⟩

/-- What a line has in the column with a number, without the spaces in front. -/
def cell (line : Text) (i : Nat) : Text :=
  ((line.drop ((columnWidth + 1) * i)).take columnWidth).dropWhile (· == ' ')

/-- What a line has in its five columns. -/
def cells (line : Text) : List Text := (List.range 5).map (cell line)

theorem Fits.of_isLexeme {k : TokenKind} (h : Lexeme.IsLexeme k x) : Fits x :=
  ⟨Nat.le_of_lt h.length_lt, fun _ hc => h.isBlank_eq_false hc⟩

theorem fits_decimal {n : Nat} (h : n < 10 ^ columnWidth) : Fits (decimal n) where
  length_le := (Nat.length_toDigits_le_iff (by decide) (by decide)).mpr h
  visible _ hc := TokenFile.isBlank_of_mem_decimal hc

theorem Fits.length_padLeft (h : Fits x) : (padLeft columnWidth x).length = columnWidth := by
  rw [Text.length_padLeft, Nat.max_eq_left h.length_le]

theorem Fits.dropWhile_padLeft (h : Fits x) :
    (padLeft columnWidth x).dropWhile (· == ' ') = x := by
  have hx : x.dropWhile (· == ' ') = x := by
    cases x with
    | nil => rfl
    | cons c x =>
        have hc : c ≠ ' ' := by
          rintro rfl
          exact absurd (h.visible ' ' (List.mem_cons_self ..)) (by decide)
        simp [hc]
  rw [padLeft, List.dropWhile_append_of_pos fun c hc => by simp [List.eq_of_mem_replicate hc], hx]

/-! ## Rows -/

theorem row_singleton (x : Text) : row [x] = padLeft columnWidth x := by simp [row]

theorem row_cons_cons (x y : Text) (cs : List Text) :
    row (x :: y :: cs) = padLeft columnWidth x ++ ' ' :: row (y :: cs) := by
  simp [row, List.intercalate]

theorem length_row (h : ∀ x ∈ cs, Fits x) (hne : cs ≠ []) :
    (row cs).length + 1 = (columnWidth + 1) * cs.length := by
  induction cs with
  | nil => exact absurd rfl hne
  | cons x cs ih =>
      rw [List.forall_mem_cons] at h
      cases cs with
      | nil => rw [row_singleton, h.1.length_padLeft, List.length_singleton, Nat.mul_one]
      | cons y cs =>
          have hrest := ih h.2 (List.cons_ne_nil y cs)
          have hrow : (row (x :: y :: cs)).length = columnWidth + ((row (y :: cs)).length + 1) := by
            rw [row_cons_cons, List.length_append, h.1.length_padLeft, List.length_cons]
          rw [hrow, hrest, show (x :: y :: cs).length = (y :: cs).length + 1 from rfl, Nat.mul_succ]
          omega

theorem mem_row {c : Char} (h : c ∈ row cs) : c = ' ' ∨ ∃ x ∈ cs, c ∈ x := by
  have hpad : ∀ x, c ∈ padLeft columnWidth x → c = ' ' ∨ c ∈ x := fun x hc =>
    (List.mem_append.mp hc).imp_left List.eq_of_mem_replicate
  induction cs with
  | nil => simp [row] at h
  | cons x cs ih =>
      cases cs with
      | nil =>
          rw [row_singleton] at h
          exact (hpad x h).imp_right fun hc => ⟨x, List.mem_cons_self .., hc⟩
      | cons y cs =>
          rw [row_cons_cons, List.mem_append, List.mem_cons] at h
          rcases h with h | h | h
          · exact (hpad x h).imp_right fun hc => ⟨x, List.mem_cons_self .., hc⟩
          · exact .inl h
          · exact (ih h).imp_right fun ⟨z, hz, hc⟩ => ⟨z, List.mem_cons_of_mem _ hz, hc⟩

theorem cell_zero (h : Fits x) (rest : Text) : cell (padLeft columnWidth x ++ rest) 0 = x := by
  rw [cell, Nat.mul_zero, List.drop_zero, List.take_append_of_le_length h.length_padLeft.ge,
    List.take_of_length_le h.length_padLeft.le, h.dropWhile_padLeft]

theorem cell_succ (h : Fits x) (rest : Text) (i : Nat) :
    cell (padLeft columnWidth x ++ ' ' :: rest) (i + 1) = cell rest i := by
  have hlength : (columnWidth + 1) * (i + 1) =
      (padLeft columnWidth x ++ [' ']).length + (columnWidth + 1) * i := by
    rw [List.length_append, h.length_padLeft, List.length_singleton, Nat.mul_succ, Nat.add_comm]
  rw [cell, List.append_cons, hlength, List.drop_length_add_append, cell]

/-- In its column, a row has what was written there. -/
theorem cell_row (h : ∀ x ∈ cs, Fits x) {i : Nat} (hi : cs[i]? = some x) : cell (row cs) i = x := by
  induction cs generalizing i with
  | nil => cases hi
  | cons y cs ih =>
      rw [List.forall_mem_cons] at h
      cases cs with
      | nil =>
          cases i with
          | zero =>
              cases hi
              rw [row_singleton, ← List.append_nil (padLeft ..), cell_zero h.1]
          | succ i => cases hi
      | cons z cs =>
          rw [row_cons_cons]
          cases i with
          | zero =>
              cases hi
              exact cell_zero h.1 _
          | succ i => rw [cell_succ h.1, ih h.2 hi]

theorem cells_row (h : ∀ x ∈ cs, Fits x) (hlength : cs.length = 5) : cells (row cs) = cs := by
  refine List.ext_getElem (by simp [cells, hlength]) fun i hi hi' => ?_
  simp only [cells, List.getElem_map, List.getElem_range]
  exact cell_row h (List.getElem?_eq_getElem hi')

/-! ## Lines -/

/-- A listing of entries that fit has one line for each of them, all of one length, from which the
columns of the entry are read back. -/
theorem lines_rows {α : Type} (columns : α → List Text) {es : List α}
    (h : ∀ e ∈ es, (columns e).length = 5 ∧ ∀ x ∈ columns e, Fits x) :
    let text := unlines (es.map fun e => row (columns e))
    text = unlines (lines text) ∧
      List.Forall₂ (fun l e => e ∈ es ∧ l.length = 84 ∧ cells l = columns e) (lines text) es := by
  intro text
  have hlines : lines text = es.map fun e => row (columns e) := by
    refine Text.lines_unlines fun l hl => ?_
    obtain ⟨e, he, rfl⟩ := List.mem_map.mp hl
    -- the characters that end lines are blank, and a row has no blank characters but spaces
    have hmem : ∀ c ∈ row (columns e), c = ' ' ∨ isBlank c = false := fun c hc =>
      (mem_row hc).imp_right fun ⟨x, hx, hc⟩ => ((h e he).2 x hx).visible c hc
    refine ⟨fun hc => ?_, fun hc => ?_⟩
    · exact absurd (hmem _ hc) (by decide)
    · exact absurd (hmem _ (List.mem_of_getLast? hc)) (by decide)
  rw [hlines]
  refine ⟨rfl, List.forall₂_map_left_iff.mpr (List.forall₂_same.mpr fun e he => ?_)⟩
  obtain ⟨hlength, hfits⟩ := h e he
  have hrow := length_row hfits (by intro hnil; simp [hnil] at hlength)
  rw [hlength] at hrow
  exact ⟨he, Nat.succ.inj hrow, cells_row hfits hlength⟩

end Listing

/-! ## Listings of an outcome -/

namespace Outcome

open Listing (Fits cells)
open Text (decimal lines unlines)

/-- All that is listed of a source text without lexical faults fits the columns. -/
theorem fits_of_ofSource {source : Text} {o : Outcome}
    (ho : ofTokens (Lexed.ofSource source).tokens source = .ok o)
    (hsource : source.length < 10 ^ Listing.columnWidth) :
    (∀ p ∈ o.symbols.procedureRows, ∀ x ∈ Listing.procedureColumns p, Fits x) ∧
      ∀ v ∈ o.symbols.variableRows, (∃ q, o.symbols.procedure? v.owner = some q) ∧
        ∀ x ∈ Listing.variableColumns o.symbols v, Fits x := by
  have hwf := (wellFormed_symbols ho).sound
  have hranged := ranged_symbols ho
  have hcensus := census ho (P := Fits)
    (fun _ ht => .of_isLexeme (Lexed.isLexeme_of_mem_significant ht)) (by decide) (by decide)
    (by decide)
  have hcount : (Lexed.ofSource source).significant.length ≤ source.length :=
    Lexed.length_significant_le source
  have hnumber : ∀ n ≤ source.length, Fits (decimal n) := fun n hn =>
    Listing.fits_decimal (Nat.lt_of_le_of_lt hn hsource)
  have hlevel : ∀ q r, o.symbols.procedure? q = some r → r.level ≤ source.length := by
    intro q r hr
    have hlt := (Array.getElem?_eq_some_iff.mp hr).1
    have hsize := hcensus.procedureCount
    exact Nat.le_trans (hwf.level_le hr)
      (Nat.le_trans (Nat.le_of_lt_succ (Nat.lt_of_lt_of_le hlt hsize)) hcount)
  have hvariables : o.symbols.variableCount ≤ source.length :=
    Nat.le_trans hcensus.variableCount hcount
  constructor
  · intro p hp
    obtain ⟨i, hi⟩ := Array.getElem?_of_mem hp
    obtain ⟨hname, htype⟩ := hcensus.procedureNames p hp
    obtain ⟨hwidth, hwithin, -⟩ := hranged ⟨i⟩ p hi
    simp only [Listing.procedureColumns, List.forall_mem_cons]
    refine ⟨hname, htype, hnumber _ (hlevel ⟨i⟩ p hi), hnumber _ ?_, hnumber _ ?_, nofun⟩ <;> omega
  · intro v hv
    obtain ⟨i, hi⟩ := Array.getElem?_of_mem hv
    obtain ⟨q, hq, hvlevel⟩ := hwf.owned v hv
    have hlt := (Array.getElem?_eq_some_iff.mp hi).1
    refine ⟨⟨q, hq⟩, ?_⟩
    have howner : o.symbols.ownerName v = q.name := by simp [SymbolTable.ownerName, hq]
    have hcode : Fits (decimal v.kind.code) := by cases v.kind <;> decide
    simp only [Listing.variableColumns, List.forall_mem_cons, howner]
    refine ⟨hcensus.variableNames v hv, (hcensus.procedureNames q (Array.mem_of_getElem? hq)).1,
      hcode, hnumber _ (hvlevel ▸ hlevel _ q hq), hnumber _ ?_, nofun⟩
    rw [hwf.index_eq i v hi]
    exact Nat.le_trans (Nat.le_of_lt hlt) hvariables

/-- The listings of a source text without lexical faults, which is not longer than a column can
count, have one line of fixed length for each entry, whatever other faults there are. From the places
of its columns the entry is read back. -/
theorem listings_read_back {source : Text} (h : (Lexed.ofSource source).errors = [])
    (hsource : source.length < 10 ^ 16) :
    ∃ o, ofTokens (Lexed.ofSource source).tokens source = .ok o ∧
      (let ls := lines (Listing.ofProcedures o.symbols)
      Listing.ofProcedures o.symbols = unlines ls ∧
        List.Forall₂ (fun l p => l.length = 84 ∧ cells l = [p.name, p.returnType, decimal p.level,
          decimal p.firstParameter, decimal p.lastParameter])
          ls o.symbols.procedureRows.toList) ∧
      (let ls := lines (Listing.ofVariables o.symbols)
      Listing.ofVariables o.symbols = unlines ls ∧
        List.Forall₂ (fun l v => l.length = 84 ∧ ∃ q, o.symbols.procedure? v.owner = some q ∧
          cells l = [v.name, q.name, decimal v.kind.code, decimal v.level, decimal v.index])
          ls o.symbols.variableRows.toList) := by
  obtain ⟨o, ho⟩ := exists_ofTokens_ofSource h
  obtain ⟨hprocedures, hvariables⟩ := fits_of_ofSource ho hsource
  refine ⟨o, ho, ?_, ?_⟩
  · obtain ⟨htext, hrows⟩ := Listing.lines_rows Listing.procedureColumns
      fun p hp => ⟨rfl, hprocedures p (Array.mem_toList_iff.mp hp)⟩
    exact ⟨htext, hrows.imp fun l p hl => hl.2⟩
  · obtain ⟨htext, hrows⟩ := Listing.lines_rows (Listing.variableColumns o.symbols)
      fun v hv => ⟨rfl, (hvariables v (Array.mem_toList_iff.mp hv)).2⟩
    refine ⟨htext, hrows.imp fun l v ⟨hv, hlength, hcells⟩ => ⟨hlength, ?_⟩⟩
    obtain ⟨q, hq⟩ := (hvariables v (Array.mem_toList_iff.mp hv)).1
    refine ⟨q, hq, hcells.trans ?_⟩
    simp [Listing.variableColumns, SymbolTable.ownerName, hq]

/-- The header of a function in which the input ends, so that the function has no name. -/
def unnamedFunction : Text := "begin integer function".toList

theorem listings_read_back_unnamed : (Lexed.ofSource unnamedFunction).errors = [] ∧
    unnamedFunction.length < 10 ^ 16 ∧
    ∃ o, ofTokens (Lexed.ofSource unnamedFunction).tokens unnamedFunction = .ok o ∧
      o.hasErrors = true ∧ (lines (Listing.ofProcedures o.symbols)).map cells =
        [["main", "void", "0", "0", "0"], ["", "integer", "1", "1", "1"]].map
          (·.map String.toList) := by
  have hclean : (Lexed.ofSource unnamedFunction).errors = [] := by decide +kernel
  have hlength : unnamedFunction.length < 10 ^ 16 := by decide
  obtain ⟨o, ho, ⟨-, hrows⟩, -⟩ := listings_read_back hclean hlength
  refine ⟨hclean, hlength, o, ho, ?_⟩
  -- what the parse has gathered after its last step
  have hrun : ((Parse.start (Lexed.ofSource unnamedFunction).significant
      unnamedFunction).toOption.bind (Parse.after 24)).map (fun p =>
        (p.reading.goals, p.outcome.hasErrors, p.session.symbols.procedureRows.toList)) =
      some ([], true, [SymbolTable.mainProcedure,
        ⟨[], "integer".toList, 1, 1, 1, some SymbolTable.root⟩]) := by decide +kernel
  obtain ⟨p, hp, heq⟩ := Parse.exists_reachable_of_after hrun
  obtain ⟨hgoals, heq⟩ := Prod.mk.inj heq
  obtain ⟨herrors, hprocedures⟩ := Prod.mk.inj heq
  have hlast := Parse.ofTokens_eq_ok_iff.mpr ⟨p, hp, Parse.step_eq_none_iff.mpr hgoals, rfl⟩
  cases ho.symm.trans hlast
  refine ⟨herrors, ?_⟩
  rw [show p.outcome.symbols.procedureRows.toList = _ from hprocedures] at hrows
  generalize lines (Listing.ofProcedures p.outcome.symbols) = ls at hrows
  cases hrows with
  | cons hmain hrest =>
      cases hrest with
      | cons hfunction hnone =>
          cases hnone
          rw [List.map_cons, hmain.2, List.map_singleton, hfunction.2]
          rfl

end Outcome

end BlockLang
