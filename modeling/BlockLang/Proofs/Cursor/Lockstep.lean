import BlockLang.Cursor
import BlockLang.Proofs.Lexeme.Numbering
import BlockLang.Proofs.Text.Lines

/-!
# Cursors in step with a token stream

Over a source text without lexical faults, a cursor that seeks the lexemes of the significant tokens
in order finds every one of them, on the line that the token carries.
-/

namespace BlockLang

open Lexeme Text

/-! ## What a cursor has before it -/

/-- Some lines, of which `n` come before, hold the lexemes of the tokens on their lines and nothing
else. -/
def Lexed.Spells : (n : Nat) → List Text → List Token → Prop
  | _, [], ts => ts = []
  | n, l :: ls, ts => ∃ here later, ts = here ++ later ∧ Spaced (here.map (·.lexeme)) l ∧
      (∀ t ∈ here, t.line = n + 1) ∧ Spells (n + 1) ls later

theorem Lexed.Spells.isVisible_of_mem {n : Nat} {ls : List Text} {ts : List Token}
    (h : Lexed.Spells n ls ts) : ∀ t ∈ ts, IsVisible t.lexeme := by
  induction ls generalizing n ts with
  | nil =>
      cases h
      simp
  | cons l ls ih =>
      obtain ⟨here, later, rfl, hsp, -, hlater⟩ := h
      intro t ht
      rcases List.mem_append.mp ht with ht | ht
      · exact hsp.isVisible_of_mem _ (List.mem_map_of_mem ht)
      · exact ih hlater t ht

/-- The tokens are all that is left before a cursor. -/
structure Cursor.Faces (c : Cursor) (ts : List Token) : Prop where
  trimmed : trimStart c.rest = c.rest
  spelled : ∃ here later, ts = here ++ later ∧ Spaced (here.map (·.lexeme)) c.rest ∧
    (∀ t ∈ here, t.line = c.lineCount) ∧ Lexed.Spells c.lineCount c.pending later

/-! ## Seeking -/

namespace Cursor

theorem isPrefixOf_append (x u : Text) : x.isPrefixOf (x ++ u) = true := by
  rw [List.isPrefixOf_iff_prefix]
  exact List.prefix_append x u

theorem seek_here {c : Cursor} {x u : Text} (h : c.rest = x ++ u) :
    c.seek x = .ok { c with rest := trimStart u } := by
  have hp : x.isPrefixOf c.rest = true := h ▸ isPrefixOf_append x u
  simp [seek, settle_of_starts hp, h]

theorem seek_next {x rest l : Text} {ls : List Text} {n : Nat} (h : ¬ x.isPrefixOf rest = true) :
    seek ⟨l :: ls, rest, n⟩ x = seek ⟨ls, trimStart l, n + 1⟩ x := by
  rw [seek, settle_next h, seek]

/-- A token on the current line is found there. -/
theorem Faces.seek_here {t : Token} {here later : List Token} {c : Cursor}
    (htrim : trimStart c.rest = c.rest) (hsp : Spaced ((t :: here).map (·.lexeme)) c.rest)
    (hline : ∀ u ∈ t :: here, u.line = c.lineCount)
    (hlater : Lexed.Spells c.lineCount c.pending later) :
    ∃ d, c.seek t.lexeme = .ok d ∧ d.lineCount = t.line ∧ d.Faces (here ++ later) := by
  obtain ⟨-, u, hu, hrest⟩ := hsp.cons_of_trimmed htrim
  refine ⟨_, Cursor.seek_here hu, (hline t (by simp)).symm, trimStart_trimStart u,
    here, later, rfl, hrest.trimStart, fun v hv => hline v (by simp [hv]), hlater⟩

/-- The next token is found on its line, and the tokens after it are left. -/
theorem Faces.seek {t : Token} {ts : List Token} {c : Cursor} (h : c.Faces (t :: ts)) :
    ∃ d, c.seek t.lexeme = .ok d ∧ d.lineCount = t.line ∧ d.Faces ts := by
  obtain ⟨pending, rest, n⟩ := c
  obtain ⟨htrim, here, later, hts, hsp, hline, hlater⟩ := h
  induction pending generalizing rest n here later with
  | nil =>
      cases here with
      | nil => cases hts.trans hlater
      | cons u here =>
          cases hts
          exact seek_here htrim hsp hline hlater
  | cons l ls ih =>
      cases here with
      | cons u here =>
          cases hts
          exact seek_here htrim hsp hline hlater
      | nil =>
          -- nothing is left of this line, so that the search goes on with the next one
          obtain rfl : rest = [] := hsp.eq_nil_of_trimmed htrim
          obtain rfl : t :: ts = later := hts
          have hne : t.lexeme ≠ [] := (hlater.isVisible_of_mem t (by simp)).1
          obtain ⟨here, later, hts, hsp, hline, hlater⟩ := hlater
          rw [seek_next (by simpa [List.isPrefixOf_iff_prefix] using hne)]
          exact ih (trimStart l) (n + 1) (trimStart_trimStart l) here later hts hsp.trimStart hline
            hlater

end Cursor

/-! ## The tokens of a source text -/

namespace Lexed

theorem spells_nil_of_blank {ls : List Text} (h : ∀ l ∈ ls, isBlankText l = true) (n : Nat) :
    Spells n ls [] := by
  induction ls generalizing n with
  | nil => rfl
  | cons l ls ih =>
      exact ⟨[], [], rfl, .blank (h l (by simp)), by simp, ih (fun k hk => h k (by simp [hk])) _⟩

theorem map_lexeme_filterMap_token? (n : Nat) (es : List Event) :
    (es.filterMap (Event.token? n)).map (·.lexeme) = es.filterMap Event.lexeme? := by
  rw [List.map_filterMap]
  congr 1
  funext e
  cases e <;> rfl

theorem spells_tokensFrom {ls bs : List Text} (hls : ∀ l ∈ ls, Clean (eventsOfLine l))
    (hbs : ∀ b ∈ bs, isBlankText b = true) (n : Nat) :
    Spells n (ls ++ bs) (Token.significant (tokensFrom (n + 1) ls)) := by
  induction ls generalizing n with
  | nil => exact spells_nil_of_blank hbs n
  | cons l ls ih =>
      rw [tokensFrom, Token.significant_append, significant_lineTokens]
      refine ⟨_, _, rfl, ?_, fun t ht => (mem_filterMap_token? ht).2,
        ih (fun k hk => hls k (by simp [hk])) (n + 1)⟩
      rw [map_lexeme_filterMap_token?]
      exact spaced_of_clean (hls l (by simp))

/-- A fresh cursor has the significant tokens of its source text before it. -/
theorem faces_significant {source : Text} (h : (ofSource source).errors = []) :
    (Cursor.ofSource source).Faces (ofSource source).significant := by
  obtain ⟨bs, hbs, hblank⟩ := exists_dropBlankEnd_append (lines source)
  refine ⟨rfl, [], _, rfl, .blank rfl, by simp, ?_⟩
  have hsp := spells_tokensFrom (clean_of_errors_eq_nil h) hblank 0
  rw [programLines, ← hbs] at hsp
  change Spells 0 (lines source) (Token.significant (tokensFrom 1 (programLines source))) at hsp
  rwa [← tokens_ofSource] at hsp

end Lexed

end BlockLang
