import BlockLang.Proofs.Lexeme.Numbering
import Mathlib.Logic.Function.Basic

/-!
# Identifiers

The lexemes of the tokens that are names, and maps from such names to others. A map of identifiers
is a map of all texts that leaves the other texts alone.
-/

namespace BlockLang

open Lexeme

/-- Whether a text is a letter with letters and digits behind it, neither too long nor reserved. -/
def isIdentifier : Text → Bool
  | [] => false
  | c :: w => c.isAlpha && w.all Char.isAlphanum && decide ((c :: w).length < lexemeLimit) &&
      (TokenKind.keyword? (c :: w)).isNone

/-- Of the lexemes, those that are identifiers are of that kind, and no others. -/
theorem Lexeme.IsLexeme.isIdentifier_iff {k : TokenKind} {x : Text} (h : IsLexeme k x) :
    isIdentifier x = true ↔ k = .identifier := by
  cases h with
  | @word c w hc hw hl =>
      have hall : w.all Char.isAlphanum = true := List.all_eq_true.mpr hw
      cases hk : TokenKind.keyword? (c :: w) with
      | none => simpa [isIdentifier, hc, hall, hk] using hl
      | some k =>
          have hreserved : ∀ p ∈ TokenKind.reserved, p.2 ≠ .identifier := by decide
          obtain ⟨l, r, hlr, -⟩ := List.lookup_eq_some_iff.mp hk
          simp [isIdentifier, hk, hreserved (c :: w, k) (by simp [hlr])]
  | number hne hw hl =>
      obtain ⟨c, w, rfl⟩ := List.exists_cons_of_ne_nil hne
      simp [isIdentifier, isAlpha_of_isDigit (hw c (by simp))]
  | symbol hmem =>
      have hall : ∀ p ∈ symbols, isIdentifier p.1 = false ∧ p.2 ≠ .identifier := by decide
      obtain ⟨hx, hk⟩ := hall _ hmem
      simp_all

/-! ## Maps of identifiers -/

abbrev Identifier : Type := { x : Text // isIdentifier x = true }

/-- A map of identifiers as a map of texts. -/
def Identifier.extend (ρ : Identifier → Identifier) (x : Text) : Text :=
  if h : isIdentifier x = true then ρ ⟨x, h⟩ else x

variable {ρ : Identifier → Identifier}

theorem Identifier.extend_of_not {x : Text} (h : isIdentifier x = false) : extend ρ x = x := by
  simp [extend, h]

theorem Identifier.isIdentifier_extend (ρ : Identifier → Identifier) (x : Text) :
    isIdentifier (extend ρ x) = isIdentifier x := by
  unfold extend
  split
  · rename_i h
    rw [(ρ ⟨x, h⟩).2, h]
  · rfl

theorem Identifier.extend_injective (hρ : ρ.Injective) : (extend ρ).Injective := by
  intro x y hxy
  have hsame : isIdentifier x = isIdentifier y := by
    rw [← isIdentifier_extend ρ x, hxy, isIdentifier_extend]
  cases hx : isIdentifier x with
  | false => rwa [extend_of_not hx, extend_of_not (hsame.symm.trans hx)] at hxy
  | true =>
      have hy : isIdentifier y = true := hsame.symm.trans hx
      simp only [extend, hx, hy, dite_true] at hxy
      exact congrArg Subtype.val (hρ (Subtype.ext hxy))

/-! ## Renamed tokens -/

/-- The token with its name replaced, if it is a name. -/
def Token.rename (r : Text → Text) (t : Token) : Token :=
  if t.kind = .identifier then { t with lexeme := r t.lexeme } else t

variable {r : Text → Text}

@[simp] theorem Token.kind_rename (t : Token) : (t.rename r).kind = t.kind := by
  unfold Token.rename
  split <;> rfl

@[simp] theorem Token.line_rename (t : Token) : (t.rename r).line = t.line := by
  unfold Token.rename
  split <;> rfl

theorem Token.rename_of_kind {t : Token} (h : t.kind ≠ .identifier) : t.rename r = t := if_neg h

/-- A lexeme that is not a name is left alone by every map of identifiers. -/
theorem Token.lexeme_rename {t : Token} (h : IsLexeme t.kind t.lexeme) :
    (t.rename (Identifier.extend ρ)).lexeme = Identifier.extend ρ t.lexeme := by
  by_cases hk : t.kind = .identifier
  · rw [Token.rename, if_pos hk]
  · have hnot : isIdentifier t.lexeme = false := by simpa using mt h.isIdentifier_iff.mp hk
    rw [rename_of_kind hk, Identifier.extend_of_not hnot]

theorem Token.significant_map_rename (ts : List Token) :
    Token.significant (ts.map (Token.rename r)) = (Token.significant ts).map (Token.rename r) := by
  simp only [Token.significant, List.filter_map, Function.comp_def, kind_rename]

theorem Lexed.isLexeme_of_mem_significant {source : Text} {t : Token}
    (h : t ∈ (ofSource source).significant) : IsLexeme t.kind t.lexeme := by
  obtain ⟨hmem, hmarker⟩ := Token.mem_significant.mp h
  rw [tokens_ofSource] at hmem
  rcases isLexeme_or_marker_of_mem hmem with hlexeme | hend | hend
  · exact hlexeme
  · rw [hend] at hmarker
    cases hmarker
  · rw [hend] at hmarker
    cases hmarker

end BlockLang
