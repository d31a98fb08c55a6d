import BlockLang.Artifact.TokenFile
import BlockLang.Proofs.Lexeme.Numbering
import BlockLang.Proofs.Text.Pieces
import BlockLang.Proofs.Text.Trimming

/-!
# Token files read back

What is written to a token file is read back token by token, with the lines of the source text, as
long as the lexemes can be told from the columns around them. The lexemes of a token stream can.
-/

namespace BlockLang

namespace TokenFile

open Text

/-- A lexeme can be told from the columns around it: it is not empty, begins with no blank character
and holds neither a space nor a line feed. -/
structure Storable (x : Text) : Prop where
  ne_nil : x ≠ []
  head : ∀ c ∈ x.head?, isBlank c = false
  space : ' ' ∉ x
  lineFeed : '\n' ∉ x

theorem Storable.of_isVisible {x : Text} (h : IsVisible x) : Storable x where
  ne_nil := h.1
  head c hc := h.2 c (List.mem_of_mem_head? hc)
  space hs := by cases h.2 _ hs
  lineFeed hn := by cases h.2 _ hn

/-! ## Columns -/

theorem isBlankText_spaces (n : Nat) : isBlankText (List.replicate n ' ') = true := by
  simp [isBlankText, isBlank]

theorem trimStart_padLeft (width : Nat) (t : Text) :
    trimStart (padLeft width t) = trimStart t :=
  trimStart_append_of_blank (isBlankText_spaces _) t

theorem isBlank_of_mem_decimal {n : Nat} {c : Char} (h : c ∈ decimal n) : isBlank c = false :=
  Lexeme.isBlank_of_isAlphanum (Lexeme.isAlphanum_of_isDigit (isDigit_of_mem_decimal h))

theorem exists_padLeft_decimal (width n : Nat) :
    ∃ u c, padLeft width (decimal n) = u ++ [c] ∧ isBlank c = false := by
  have hne : decimal n ≠ [] := Nat.toDigits_ne_nil
  refine ⟨List.replicate (width - (decimal n).length) ' ' ++ (decimal n).dropLast, _, ?_,
    isBlank_of_mem_decimal (List.getLast_mem hne)⟩
  rw [List.append_assoc, List.dropLast_concat_getLast hne, padLeft]

theorem trim_padLeft_decimal (width n : Nat) : trim (padLeft width (decimal n)) = decimal n := by
  have hhead : trimStart (decimal n) = decimal n :=
    trimStart_of_head fun c hc => isBlank_of_mem_decimal (List.mem_of_mem_head? hc)
  obtain ⟨u, c, hu, hc⟩ := exists_padLeft_decimal 0 n
  have hu : decimal n = u ++ [c] := by simpa [padLeft] using hu
  rw [trim, trimStart_padLeft, hhead, hu, trimEnd_append_visible hc]

theorem kindOfCode?_decimal_code (k : TokenKind) : kindOfCode? (decimal k.code) = some k := by
  simp [kindOfCode?, numeral?_decimal, TokenKind.ofCode?_code]

/-! ## Entries -/

theorem exists_entry_eq_append (t : Token) : ∃ u c, entry t = u ++ [c] ∧ isBlank c = false := by
  obtain ⟨u, c, hu, hc⟩ := exists_padLeft_decimal codeWidth t.kind.code
  exact ⟨padLeft lexemeWidth t.lexeme ++ ' ' :: u, c, by simp [entry, hu], hc⟩

theorem trim_entry {t : Token} (h : Storable t.lexeme) :
    trim (entry t) = t.lexeme ++ ' ' :: padLeft codeWidth (decimal t.kind.code) := by
  have hstart : trimStart (entry t) =
      t.lexeme ++ ' ' :: padLeft codeWidth (decimal t.kind.code) := by
    rw [entry, padLeft, List.append_assoc, trimStart_append_of_blank (isBlankText_spaces _)]
    refine trimStart_of_head fun c hc => h.head c ?_
    obtain ⟨d, x, hx⟩ := List.exists_cons_of_ne_nil h.ne_nil
    simpa [hx] using hc
  obtain ⟨u, c, hu, hc⟩ := exists_padLeft_decimal codeWidth t.kind.code
  rw [trim, hstart, hu, ← List.cons_append, ← List.append_assoc, trimEnd_append_visible hc]

/-- The entry of a token is read back. -/
theorem decodeEntry_entry {t : Token} (h : Storable t.lexeme) (n : Nat) :
    decodeEntry n (entry t) = .ok (t.lexeme, t.kind) := by
  simp only [decodeEntry, trim_entry h, splitFirst?_append h.space, trim_padLeft_decimal,
    kindOfCode?_decimal_code]

/-- The entries of tokens are read back with their lines. -/
theorem decodeFrom_map_entry {line : Nat} {ts : List Token} (h : ∀ t ∈ ts, Storable t.lexeme)
    (hs : Token.Stamped line ts) (n : Nat) : decodeFrom n line (ts.map entry) = .ok ts := by
  induction ts generalizing n line with
  | nil => rfl
  | cons t ts ih =>
      obtain ⟨rfl, hs⟩ := hs
      have hrest := ih (fun u hu => h u (by simp [hu])) hs (n + 1)
      simp only [List.map_cons, decodeFrom, decodeEntry_entry (h t (by simp))]
      simp only [bind, Except.bind, hrest]
      rfl

theorem lines_encode {ts : List Token} (h : ∀ t ∈ ts, Storable t.lexeme) :
    lines (encode ts) = ts.map entry := by
  refine lines_unlines fun l hl => ?_
  obtain ⟨t, ht, rfl⟩ := List.mem_map.mp hl
  refine ⟨?_, ?_⟩
  · have hd : '\n' ∉ decimal t.kind.code := fun hm => by cases isDigit_of_mem_decimal hm
    simp [entry, padLeft, (h t ht).lineFeed, hd]
  · obtain ⟨u, c, hu, hc⟩ := exists_entry_eq_append t
    rw [hu, List.getLast?_concat]
    rintro ⟨⟩
    cases hc

/-- A token file is read back if its lexemes are storable and its lines are those that the end
markers tell. -/
theorem decode_encode {ts : List Token} (h : ∀ t ∈ ts, Storable t.lexeme)
    (hs : Token.Stamped 1 ts) : decode (encode ts) = .ok ts := by
  rw [decode, lines_encode h]
  exact decodeFrom_map_entry h hs 1

end TokenFile

/-! ## Token streams -/

namespace Lexed

theorem decode_encode_tokens (source : Text) :
    TokenFile.decode (TokenFile.encode (ofSource source).tokens) = .ok (ofSource source).tokens :=
  TokenFile.decode_encode (fun _ ht => .of_isVisible (isVisible_of_mem_tokens ht))
    (stamped_tokens source)

/-- The token stream of any source text, with lexical faults or without, is read back from its token
file. The end markers that tell its lines are one for each line of the program, in order, and at the
end of the stream one that is on the line behind. -/
theorem decode_encode_ofSource (source : Text) :
    let l := ofSource source
    let n := (programLines source).length
    TokenFile.decode (TokenFile.encode l.tokens) = .ok l.tokens ∧
      l.tokens.filter (·.kind.isEndMarker) =
        (List.range' 1 n).map Token.endOfLine ++ [Token.endOfFile (n + 1)] ∧
      l.tokens.getLast? = some (Token.endOfFile (n + 1)) := by
  intro l n
  refine ⟨decode_encode_tokens source, ?_, ?_⟩
  · rw [tokens_ofSource, filter_isEndMarker_tokensFrom, Nat.add_comm]
  · simp [l, n, ofSource]

end Lexed

end BlockLang
