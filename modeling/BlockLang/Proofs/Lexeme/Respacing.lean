import BlockLang.Proofs.Lexeme.Identifier
import BlockLang.Proofs.Lexeme.Layout

/-!
# Tokens written out again

The significant tokens of a source text, written line by line with a space between each two, are
recognised again, and nothing else is. What the automaton leaves behind at a lexical fault has
therefore no part in the tokens behind the fault.
-/

namespace BlockLang

namespace Lexeme

open Text (join)

variable {x : Text} {k : TokenKind}

/-! ## Kinds of lexemes -/

/-- The kind of a lexeme, told by nothing but its characters. -/
def kindOf (x : Text) : TokenKind :=
  if x.all Char.isDigit then .constant
  else ((symbols.lookup x).or (TokenKind.keyword? x)).getD .identifier

theorem lookup_symbols_of_isWordLike (hx : isWordLike x = true) : symbols.lookup x = none := by
  cases h : symbols.lookup x with
  | none => rfl
  | some k =>
      obtain ⟨l, r, hsymbols, -⟩ := List.lookup_eq_some_iff.mp h
      have hmem : (x, k) ∈ symbols := by simp [hsymbols]
      rw [isWordLike_of_mem_symbols hmem] at hx
      cases hx

theorem IsLexeme.kindOf_eq (h : IsLexeme k x) : kindOf x = k := by
  cases h with
  | @word c w hc hw hl =>
      have hword : isWordLike (c :: w) = true := isAlphanum_of_isAlpha hc
      have hdigit : c.isDigit = false := by
        cases hd : c.isDigit with
        | false => rfl
        | true => exact absurd hc (by simp [isAlpha_of_isDigit hd])
      simp [kindOf, hdigit, lookup_symbols_of_isWordLike hword]
  | number hne hw hl => exact if_pos (List.all_eq_true.mpr hw)
  | symbol h =>
      have hall : ∀ p ∈ symbols, kindOf p.1 = p.2 := by decide
      exact hall _ h

theorem IsLexeme.length_lt (h : IsLexeme k x) : x.length < lexemeLimit := by
  cases h with
  | word hc hw hl => exact hl
  | number hne hw hl => exact hl
  | symbol h =>
      have hall : ∀ p ∈ symbols, p.1.length < lexemeLimit := by decide
      exact hall _ h

/-! ## Lexemes with spaces between them -/

theorem renders_join {xs : List (Text × TokenKind)} (h : ∀ p ∈ xs, IsLexeme p.2 p.1) :
    Renders xs (join ' ' (xs.map Prod.fst)) := by
  induction xs with
  | nil => exact .nil
  | cons p xs ih =>
      rw [List.forall_mem_cons] at h
      cases xs with
      | nil => simpa [join] using Renders.last h.1
      | cons q xs =>
          rw [List.map_cons, List.map_cons, Text.join_cons]
          exact .cons (g := [' ']) h.1 rfl (by simp) (ih h.2)

theorem Renders.rendersLine {xs : List (Text × TokenKind)} {t : Text} (h : Renders xs t) :
    RendersLine xs t :=
  ⟨[], t, [], rfl, rfl, by simp, h⟩

end Lexeme

/-! ## Lines of lexemes -/

namespace Token

/-- The lexemes of the tokens that stand on a line, with a space between each two. -/
def lineText (ts : List Token) (line : Nat) : Text :=
  Text.join ' ' ((ts.filter (·.line = line)).map (·.lexeme))

/-- The number of the last line with a token; it is zero if there is none. -/
def lastLine (ts : List Token) : Nat := (ts.map (·.line)).max?.getD 0

/-- The lines of the tokens, up to the last one with a token. -/
def spacedLines (ts : List Token) : List Text := (List.range' 1 (lastLine ts)).map (lineText ts)

theorem line_le_lastLine {ts : List Token} {t : Token} (h : t ∈ ts) : t.line ≤ lastLine ts :=
  List.le_max?_getD_of_mem (List.mem_map_of_mem h)

theorem lastLine_le {ts : List Token} {m : Nat} (h : ∀ t ∈ ts, t.line ≤ m) : lastLine ts ≤ m := by
  rw [lastLine]
  cases hmax : (ts.map (·.line)).max? with
  | none => exact Nat.zero_le m
  | some k =>
      obtain ⟨t, ht, rfl⟩ := List.mem_map.mp (List.max?_mem hmax)
      exact h t ht

/-- Tokens that stand line by line do so up to the last line with a token. -/
theorem flatMap_filter_lastLine {ts : List Token} {m : Nat}
    (h : ts = (List.range' 1 m).flatMap fun n => ts.filter (·.line = n)) :
    (List.range' 1 (lastLine ts)).flatMap (fun n => ts.filter (·.line = n)) = ts := by
  have hlast : lastLine ts ≤ m := by
    refine lastLine_le fun t ht => ?_
    rw [h] at ht
    obtain ⟨n, hn, ht⟩ := List.mem_flatMap.mp ht
    have hline : t.line = n := by simpa using (List.mem_filter.mp ht).2
    have hn := (List.mem_range'_1.mp hn).2
    omega
  obtain ⟨k, rfl⟩ := Nat.exists_eq_add_of_le hlast
  have hbehind : (List.range' (1 + lastLine ts) k).flatMap
      (fun n => ts.filter (·.line = n)) = [] := by
    refine List.flatMap_eq_nil_iff.mpr fun n hn => List.filter_eq_nil_iff.mpr fun t ht => ?_
    have hline := line_le_lastLine ht
    have hn := (List.mem_range'_1.mp hn).1
    simp only [decide_eq_true_eq]
    omega
  rw [← List.range'_append_1, List.flatMap_append, hbehind, List.append_nil] at h
  exact h.symm

end Token

namespace Lexed

open Lexeme
open Token (lineText lastLine spacedLines)

variable {source : Text}

/-- The lexemes of a line with spaces between them are the tokens of that line. -/
theorem rendersLine_lineText (source : Text) (n : Nat) :
    RendersLine (((ofSource source).significant.filter (·.line = n)).map fun t =>
      (t.lexeme, t.kind)) (lineText (ofSource source).significant n) := by
  have hlexemes : ∀ p ∈ ((ofSource source).significant.filter (·.line = n)).map
      (fun t => (t.lexeme, t.kind)), IsLexeme p.2 p.1 := by
    intro p hp
    obtain ⟨t, ht, rfl⟩ := List.mem_map.mp hp
    exact isLexeme_of_mem_significant (List.mem_of_mem_filter ht)
  have hrenders := renders_join hlexemes
  rw [List.map_map] at hrenders
  exact hrenders.rendersLine

theorem filterMap_token?_lineText (source : Text) (n : Nat) :
    (eventsOfLine (lineText (ofSource source).significant n)).filterMap (Event.token? n) =
      (ofSource source).significant.filter (·.line = n) := by
  rw [eventsOfLine_eq_scan, (rendersLine_lineText source n).scan_eq, filterMap_token?_ofLexeme,
    List.map_map]
  refine (List.map_congr_left fun t ht => ?_).trans (List.map_id _)
  have hline : t.line = n := by simpa using (List.mem_filter.mp ht).2
  rw [← hline]
  rfl

theorem flatMap_filter_significant (source : Text) :
    (List.range' 1 (lastLine (ofSource source).significant)).flatMap (fun n =>
      (ofSource source).significant.filter (·.line = n)) = (ofSource source).significant := by
  apply Token.flatMap_filter_lastLine (m := (programLines source).length)
  rw [significant, tokens_ofSource]
  exact significant_eq_flatMap_filter_line 1 _

theorem significant_of_lines_eq {s : Text}
    (h : Text.lines s = spacedLines (ofSource source).significant) :
    (ofSource s).significant = (ofSource source).significant := by
  rw [significant_eq_onLines, h, spacedLines, onLines_map_range']
  simp only [filterMap_token?_lineText]
  exact flatMap_filter_significant source

theorem errors_of_lines_eq {s : Text}
    (h : Text.lines s = spacedLines (ofSource source).significant) :
    (ofSource s).errors = [] := by
  refine errors_eq_nil_iff_renders.mpr fun l hl => ?_
  rw [h] at hl
  obtain ⟨n, -, rfl⟩ := List.mem_map.mp hl
  exact ⟨_, rendersLine_lineText source n⟩

/-- The lines of lexemes are those of the text that is written with them. -/
theorem lines_unlines_spacedLines (source : Text) :
    Text.lines (Text.unlines (spacedLines (ofSource source).significant)) =
      spacedLines (ofSource source).significant := by
  have hspace : ∀ l ∈ spacedLines (ofSource source).significant, ∀ c ∈ l,
      c = ' ' ∨ isBlank c = false := by
    intro l hl c hc
    obtain ⟨n, -, rfl⟩ := List.mem_map.mp hl
    obtain hspace | ⟨x, hx, hc⟩ := Text.mem_join hc
    · exact .inl hspace
    · obtain ⟨t, ht, rfl⟩ := List.mem_map.mp hx
      have hlexeme := isLexeme_of_mem_significant (List.mem_of_mem_filter ht)
      exact .inr (hlexeme.isBlank_eq_false hc)
  refine Text.lines_unlines fun l hl => ⟨fun hmem => ?_, fun hend => ?_⟩
  · simpa [isBlank] using hspace l hl _ hmem
  · simpa [isBlank] using hspace l hl _ (List.mem_of_getLast? hend)

/-- Whatever the faults of a source text are: the text that has the lexemes of its significant tokens
on their lines, with spaces between them, has the same significant tokens and no faults. Each of them
is a lexeme with the one kind that its characters tell, and is not too long. -/
theorem respaced_tokens (source : Text) :
    Text.lines (Text.unlines (spacedLines (ofSource source).significant)) =
        spacedLines (ofSource source).significant ∧
      (∀ s, Text.lines s = spacedLines (ofSource source).significant →
        (ofSource s).errors = [] ∧ (ofSource s).significant = (ofSource source).significant) ∧
      ∀ t ∈ (ofSource source).significant,
        IsLexeme t.kind t.lexeme ∧ kindOf t.lexeme = t.kind ∧ t.lexeme.length ≤ 15 := by
  refine ⟨lines_unlines_spacedLines source, fun s hs => ?_, fun t ht => ?_⟩
  · exact ⟨errors_of_lines_eq hs, significant_of_lines_eq hs⟩
  · have hlexeme := isLexeme_of_mem_significant ht
    exact ⟨hlexeme, hlexeme.kindOf_eq, Nat.le_of_lt_succ hlexeme.length_lt⟩

theorem respaced_tokens_with_faults :
    Text.lines "a := b\n\nthen 1".toList =
        spacedLines (ofSource "a:=b $\n <<\nthen:1 ".toList).significant ∧
      ⟨"then".toList, .thenWord, 3⟩ ∈ (ofSource "a:=b $\n <<\nthen:1 ".toList).significant ∧
      (ofSource "a := b\n\nthen 1".toList).errors = [] ∧
      (ofSource "a := b\n\nthen 1".toList).significant =
        (ofSource "a:=b $\n <<\nthen:1 ".toList).significant ∧
      kindOf "then".toList = .thenWord := by
  have hlines : Text.lines "a := b\n\nthen 1".toList =
      spacedLines (ofSource "a:=b $\n <<\nthen:1 ".toList).significant := by
    decide
  have hthen : ⟨"then".toList, .thenWord, 3⟩ ∈
      (ofSource "a:=b $\n <<\nthen:1 ".toList).significant := by
    decide
  obtain ⟨-, hrespaced, hkinds⟩ := respaced_tokens "a:=b $\n <<\nthen:1 ".toList
  obtain ⟨herrors, hsignificant⟩ := hrespaced _ hlines
  exact ⟨hlines, hthen, herrors, hsignificant, (hkinds _ hthen).2.1⟩

end Lexed

end BlockLang
