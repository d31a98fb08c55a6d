import BlockLang.Proofs.Lexeme.Numbering
import BlockLang.Proofs.Lexeme.Scanner
import BlockLang.Proofs.Text.Lines

/-!
# Lines as renderings of lexemes

A line is free of lexical faults exactly if it is a sequence of lexemes with blank characters around
and between them, where some neighbours may not touch. The sequence is the only one that the line
renders, and its lexemes are the tokens of the line.
-/

namespace BlockLang

namespace Lexeme

open Text (isBlankText)

/-! ## Renderings -/

/-- A lexeme that begins with a letter or a digit: a word or a number. -/
def isWordLike (x : Text) : Bool := x.head?.any Char.isAlphanum

/-- Two lexemes that are no longer the same lexemes when the one directly follows the other. -/
def NeedsGap (x y : Text) : Prop :=
  (isWordLike x = true ∧ isWordLike y = true) ∨
    ((x = ['<'] ∨ x = ['>']) ∧ y.head?.any isOperatorChar = true)

instance (x y : Text) : Decidable (NeedsGap x y) :=
  inferInstanceAs (Decidable ((_ ∧ _) ∨ _))

/-- A text consists of some lexemes in order, with blank characters in the gaps between them. -/
inductive Renders : List (Text × TokenKind) → Text → Prop where
  | nil : Renders [] []
  | last {x : Text} {k : TokenKind} (hx : IsLexeme k x) : Renders [(x, k)] x
  | cons {x y g t : Text} {k j : TokenKind} {xs : List (Text × TokenKind)} (hx : IsLexeme k x)
      (hg : isBlankText g = true) (hgap : NeedsGap x y → g ≠ []) (h : Renders ((y, j) :: xs) t) :
      Renders ((x, k) :: (y, j) :: xs) (x ++ (g ++ t))

/-- A line renders some lexemes, up to blank characters at its ends. -/
def RendersLine (xs : List (Text × TokenKind)) (line : Text) : Prop :=
  ∃ g t h, isBlankText g = true ∧ isBlankText h = true ∧ line = g ++ (t ++ h) ∧ Renders xs t

/-! ## Where a lexeme ends -/

/-- What stands behind a lexeme does not go on with it. -/
structure EndsBefore (x rest : Text) : Prop where
  wordLike : isWordLike x = true → isBoundary rest = true
  bracket : x = ['<'] ∨ x = ['>'] → rest.head?.any isOperatorChar = false

theorem EndsBefore.nil (x : Text) : EndsBefore x [] := ⟨fun _ => rfl, fun _ => rfl⟩

theorem EndsBefore.of_wordLike {x t : Text} (hx : isWordLike x = true) (ht : isBoundary t = true) :
    EndsBefore x t := by
  refine ⟨fun _ => ht, ?_⟩
  rintro (rfl | rfl) <;> cases hx

theorem EndsBefore.of_long {c d : Char} {x t : Text} (hx : isWordLike (c :: d :: x) = false) :
    EndsBefore (c :: d :: x) t := by
  refine ⟨?_, ?_⟩
  · rw [hx]
    rintro ⟨⟩
  · rintro (h | h) <;> cases h

theorem takeWhile_dropWhile_append {p : Char → Bool} {w t : Text} (hw : ∀ c ∈ w, p c = true)
    (ht : t.head?.any p = false) : (w ++ t).takeWhile p = w ∧ (w ++ t).dropWhile p = t := by
  rw [List.takeWhile_append_of_pos hw, List.dropWhile_append_of_pos hw]
  cases t with
  | nil => simp
  | cons c t =>
      have hc : p c = false := ht
      simp [hc]

theorem isWordLike_of_isBoundary {t : Text} (h : isBoundary t = true) : isWordLike t = false := by
  cases t with
  | nil => rfl
  | cons c t =>
      cases hc : c.isAlphanum with
      | false => exact hc
      | true =>
          have hterminator : isTerminator c = true := h
          rw [isTerminator_of_isAlphanum hc] at hterminator
          cases hterminator

theorem cut_word {c : Char} {w t : Text} (hc : c.isAlpha = true)
    (hw : ∀ d ∈ w, d.isAlphanum = true) (ht : isBoundary t = true) :
    cut c (w ++ t) = (.ofWord (c :: w), t) := by
  obtain ⟨htake, hdrop⟩ := takeWhile_dropWhile_append hw (isWordLike_of_isBoundary ht)
  simp [cut, hc, cutWord, htake, hdrop, ht]

theorem cut_number {c : Char} {w t : Text} (hc : c.isDigit = true)
    (hw : ∀ d ∈ w, d.isDigit = true) (ht : isBoundary t = true) :
    cut c (w ++ t) = (.ofNumber (c :: w), t) := by
  have hdigit : t.head?.any Char.isDigit = false := by
    have hword := isWordLike_of_isBoundary ht
    cases t with
    | nil => rfl
    | cons d t =>
        have hd : d.isAlphanum = false := hword
        rw [Char.isAlphanum, Bool.or_eq_false_iff] at hd
        exact hd.2
  obtain ⟨htake, hdrop⟩ := takeWhile_dropWhile_append hw hdigit
  simp [cut, isAlpha_of_isDigit hc, hc, cutNumber, htake, hdrop, ht]

theorem cutBracket_of_not_isOperatorChar {c : Char} {t : Text} (k : TokenKind)
    (ht : t.head?.any isOperatorChar = false) : cutBracket c k t = (.token k [c], t) := by
  cases t with
  | nil => rfl
  | cons d t =>
      have hd : isOperatorChar d = false := ht
      have hpair : pair? c d = none := by
        unfold pair?
        split <;> simp_all [isOperatorChar, punctuation]
      simp [cutBracket, hpair, hd]

theorem cut_symbol {x t : Text} {k : TokenKind} (hx : (x, k) ∈ symbols) (ht : EndsBefore x t) :
    ∃ c u, x = c :: u ∧ cut c (u ++ t) = (.token k x, t) := by
  simp only [symbols, List.mem_cons, List.not_mem_nil, or_false, Prod.mk.injEq] at hx
  rcases hx with ⟨rfl, rfl⟩ | ⟨rfl, rfl⟩ | ⟨rfl, rfl⟩ | ⟨rfl, rfl⟩ | ⟨rfl, rfl⟩ | ⟨rfl, rfl⟩ |
    ⟨rfl, rfl⟩ | ⟨rfl, rfl⟩ | ⟨rfl, rfl⟩ | ⟨rfl, rfl⟩ | ⟨rfl, rfl⟩ | ⟨rfl, rfl⟩
  case inr.inr.inr.inl =>
      exact ⟨'<', [], rfl, cutBracket_of_not_isOperatorChar .less (ht.bracket (.inl rfl))⟩
  case inr.inr.inr.inr.inr.inl =>
      exact ⟨'>', [], rfl, cutBracket_of_not_isOperatorChar .greater (ht.bracket (.inr rfl))⟩
  all_goals exact ⟨_, _, rfl, rfl⟩

theorem cut_of_isLexeme {x t : Text} {k : TokenKind} (hx : IsLexeme k x) (ht : EndsBefore x t) :
    ∃ c u, x = c :: u ∧ cut c (u ++ t) = (.token k x, t) := by
  cases hx with
  | @word c w hc hw hl =>
      refine ⟨c, w, rfl, ?_⟩
      have hboundary := ht.wordLike (by simp [isWordLike, isAlphanum_of_isAlpha hc])
      rw [cut_word hc hw hboundary, Event.ofWord, if_pos hl]
  | number hne hw hl =>
      obtain ⟨c, w, rfl⟩ := List.exists_cons_of_ne_nil hne
      refine ⟨c, w, rfl, ?_⟩
      have hc := hw c (List.mem_cons_self ..)
      have hboundary := ht.wordLike (by simp [isWordLike, isAlphanum_of_isDigit hc])
      rw [cut_number hc (fun d hd => hw d (List.mem_cons_of_mem _ hd)) hboundary, Event.ofNumber,
        if_pos hl]
  | symbol hx => exact cut_symbol hx ht

/-! ## Pieces that are lexemes -/

/-- A piece is a lexeme that was cut off where it ends. -/
def IsCut (t : Text) (r : Event × Text) : Prop :=
  ∀ k x, r.1 = .token k x → IsLexeme k x ∧ t = x ++ r.2 ∧ EndsBefore x r.2

theorem isCut_fault (t : Text) (f : LexicalFault) (u : Text) : IsCut t (.fault f, u) := by
  intro k x h
  cases h

theorem isCut_cutWord {c : Char} (hc : c.isAlpha = true) (t : Text) :
    IsCut (c :: t) (cutWord c t) := by
  unfold cutWord
  dsimp only
  split
  · rename_i hboundary
    unfold Event.ofWord
    split
    · rename_i hl
      intro k x h
      cases h
      refine ⟨.word hc (fun d hd => List.all_eq_true.mp List.all_takeWhile d hd) hl, ?_,
        .of_wordLike (by simp [isWordLike, isAlphanum_of_isAlpha hc]) hboundary⟩
      rw [List.cons_append, List.takeWhile_append_dropWhile]
    · exact isCut_fault _ _ _
  · exact isCut_fault _ _ _

theorem isCut_cutNumber {c : Char} (hc : c.isDigit = true) (t : Text) :
    IsCut (c :: t) (cutNumber c t) := by
  unfold cutNumber
  dsimp only
  split
  · rename_i hboundary
    unfold Event.ofNumber
    split
    · rename_i hl
      intro k x h
      cases h
      refine ⟨.number (by simp) ?_ hl, ?_,
        .of_wordLike (by simp [isWordLike, isAlphanum_of_isDigit hc]) hboundary⟩
      · intro d hd
        rcases List.mem_cons.mp hd with rfl | hd
        · exact hc
        · exact List.all_eq_true.mp List.all_takeWhile d hd
      · rw [List.cons_append, List.takeWhile_append_dropWhile]
    · exact isCut_fault _ _ _
  · exact isCut_fault _ _ _

theorem isCut_single {c : Char} {k : TokenKind} (h : single? c = some k) (t : Text) :
    IsCut (c :: t) (.token k [c], t) := by
  intro j x hx
  cases hx
  refine ⟨single?_isLexeme h, rfl, ?_, ?_⟩
  · intro hword
    have halphanum := isAlphanum_of_mem_punctuation (mem_punctuation_of_single? h)
    cases halphanum.symm.trans hword
  · rintro (hc | hc) <;> cases hc <;> cases h

theorem isWordLike_of_mem_symbols {x : Text} {k : TokenKind} (h : (x, k) ∈ symbols) :
    isWordLike x = false := by
  have hall : ∀ p ∈ symbols, isWordLike p.1 = false := by decide
  exact hall _ h

theorem mem_symbols_of_pair? {c d : Char} {k : TokenKind} (h : pair? c d = some k) :
    ([c, d], k) ∈ symbols := by
  unfold pair? at h
  split at h <;> cases h <;> decide

theorem isCut_cutBracket {c : Char} {k : TokenKind} (hk : ([c], k) ∈ symbols) (t : Text) :
    IsCut (c :: t) (cutBracket c k t) := by
  fun_cases cutBracket c k t with
  | case1 =>
      rintro j x ⟨⟩
      exact ⟨.symbol hk, rfl, .nil _⟩
  | case2 d t j hpair =>
      rintro i x ⟨⟩
      have hsymbol := mem_symbols_of_pair? hpair
      exact ⟨.symbol hsymbol, rfl, .of_long (isWordLike_of_mem_symbols hsymbol)⟩
  | case3 => exact isCut_fault _ _ _
  | case4 d t hpair hop =>
      rintro j x ⟨⟩
      refine ⟨.symbol hk, rfl, ?_, fun _ => by simpa using hop⟩
      rw [isWordLike_of_mem_symbols hk]
      rintro ⟨⟩

theorem isCut_cutColon (t : Text) : IsCut (':' :: t) (cutColon t) := by
  fun_cases cutColon t with
  | case1 t =>
      rintro j x ⟨⟩
      exact ⟨.symbol (by decide), rfl, .of_long rfl⟩
  | case2 => exact isCut_fault _ _ _

theorem isCut_cut (c : Char) (t : Text) : IsCut (c :: t) (cut c t) := by
  unfold cut
  split
  · exact isCut_cutWord ‹_› t
  split
  · exact isCut_cutNumber ‹_› t
  split
  · exact isCut_single ‹_› t
  split
  · subst c
    exact isCut_cutBracket (by decide) t
  split
  · subst c
    exact isCut_cutBracket (by decide) t
  split
  · subst c
    exact isCut_cutColon t
  · exact isCut_fault _ _ _

/-! ## Lines without faults -/

theorem isBoundary_of_not_isWordLike {y : Text} {k : TokenKind} (hy : IsLexeme k y)
    (hword : isWordLike y = false) : isBoundary y = true := by
  cases hy with
  | word hc hw hl => simp [isWordLike, isAlphanum_of_isAlpha hc] at hword
  | number hne hw hl =>
      obtain ⟨c, w, rfl⟩ := List.exists_cons_of_ne_nil hne
      simp [isWordLike, isAlphanum_of_isDigit (hw c (List.mem_cons_self ..))] at hword
  | symbol h =>
      have hall : ∀ p ∈ symbols, isBoundary p.1 = true := by decide
      exact hall _ h

theorem endsBefore_append_iff {x y t : Text} {k : TokenKind} (hy : IsLexeme k y) :
    EndsBefore x (y ++ t) ↔ ¬ NeedsGap x y := by
  have hhead : (y ++ t).head? = y.head? := by
    obtain ⟨c, y, rfl⟩ := List.exists_cons_of_ne_nil hy.ne_nil
    rfl
  have hboundary : isBoundary (y ++ t) = isBoundary y := by
    rw [isBoundary, hhead, isBoundary]
  constructor
  · rintro ⟨hword, hbracket⟩ (⟨hx, hy⟩ | ⟨hx, hy⟩)
    · have hnone := isWordLike_of_isBoundary (hboundary ▸ hword hx)
      rw [hy] at hnone
      cases hnone
    · have hnone := hbracket hx
      rw [hhead, hy] at hnone
      cases hnone
  · intro hgap
    refine ⟨fun hx => ?_, fun hx => ?_⟩
    · rw [hboundary]
      apply isBoundary_of_not_isWordLike hy
      cases hword : isWordLike y with
      | false => rfl
      | true => exact absurd (.inl ⟨hx, hword⟩) hgap
    · rw [hhead]
      cases hany : y.head?.any isOperatorChar with
      | false => rfl
      | true => exact absurd (.inr ⟨hx, hany⟩) hgap

theorem endsBefore_of_blank {x g t : Text} (hg : isBlankText g = true)
    (ht : g = [] → EndsBefore x t) : EndsBefore x (g ++ t) := by
  cases g with
  | nil => exact ht rfl
  | cons c g =>
      have hc : isBlank c = true := by
        simp only [isBlankText, List.all_cons, Bool.and_eq_true] at hg
        exact hg.1
      have hpunctuation : c ∉ punctuation := not_mem_punctuation_of_isBlank hc
      exact ⟨fun _ => by simp [isBoundary, isTerminator, hc],
        fun _ => by simp [isOperatorChar, hpunctuation]⟩

theorem scan_append_of_blank {g : Text} (hg : isBlankText g = true) (t : Text) :
    scan (g ++ t) = scan t := by
  induction g with
  | nil => rfl
  | cons c g ih =>
      simp only [isBlankText, List.all_cons, Bool.and_eq_true] at hg
      rw [List.cons_append, scan_cons_blank hg.1, ih hg.2]

theorem scan_of_blank {g : Text} (hg : isBlankText g = true) : scan g = [] := by
  rw [← List.append_nil g, scan_append_of_blank hg, scan_nil]

theorem scan_append_of_isLexeme {x t : Text} {k : TokenKind} (hx : IsLexeme k x)
    (ht : EndsBefore x t) : scan (x ++ t) = .token k x :: scan t := by
  obtain ⟨c, u, rfl, hcut⟩ := cut_of_isLexeme hx ht
  rw [List.cons_append, scan_cons_visible (hx.isBlank_eq_false (List.mem_cons_self ..)), hcut]

/-- The token event of a lexeme. -/
def Event.ofLexeme (p : Text × TokenKind) : Event := .token p.2 p.1

theorem Renders.exists_eq_append {y t : Text} {j : TokenKind} {xs : List (Text × TokenKind)}
    (h : Renders ((y, j) :: xs) t) : IsLexeme j y ∧ ∃ u, t = y ++ u := by
  cases h with
  | last hy => exact ⟨hy, [], (List.append_nil y).symm⟩
  | cons hy hg hgap h => exact ⟨hy, _, rfl⟩

theorem Renders.scan_eq {xs : List (Text × TokenKind)} {t : Text} (h : Renders xs t) {b : Text}
    (hb : isBlankText b = true) : scan (t ++ b) = xs.map Event.ofLexeme := by
  induction h with
  | nil => exact scan_of_blank hb
  | @last x k hx =>
      have hends : EndsBefore x (b ++ []) := endsBefore_of_blank hb fun _ => .nil x
      rw [List.append_nil] at hends
      rw [scan_append_of_isLexeme hx hends, scan_of_blank hb]
      rfl
  | @cons x y g t k j xs hx hg hgap h ih =>
      obtain ⟨hy, u, hu⟩ := h.exists_eq_append
      have hends : EndsBefore x (g ++ (t ++ b)) := by
        refine endsBefore_of_blank hg fun hnil => ?_
        rw [hu, List.append_assoc]
        exact (endsBefore_append_iff hy).mpr fun hneeds => hgap hneeds hnil
      rw [List.append_assoc, List.append_assoc, scan_append_of_isLexeme hx hends,
        scan_append_of_blank hg, ih]
      rfl

theorem RendersLine.scan_eq {xs : List (Text × TokenKind)} {line : Text}
    (h : RendersLine xs line) : scan line = xs.map Event.ofLexeme := by
  obtain ⟨g, t, b, hg, hb, rfl, ht⟩ := h
  rw [scan_append_of_blank hg, ht.scan_eq hb]

/-- A line without faults renders its tokens. -/
theorem exists_rendersLine {line : Text} (h : Clean (scan line)) : ∃ xs, RendersLine xs line := by
  fun_induction scan line with
  | case1 => exact ⟨[], [], [], [], rfl, rfl, rfl, .nil⟩
  | case2 c t hc ih =>
      obtain ⟨xs, g, u, b, hg, hb, rfl, hu⟩ := ih h
      exact ⟨xs, c :: g, u, b, by simpa [isBlankText, hc] using hg, hb, rfl, hu⟩
  | case3 c t hc ih =>
      obtain ⟨xs, g, u, b, hg, hb, hrest, hu⟩ := ih h.of_cons
      cases hevent : (cut c t).1 with
      | fault f => exact absurd (hevent ▸ List.mem_cons_self ..) (h f)
      | token k x =>
          obtain ⟨hx, ht, hends⟩ := isCut_cut c t k x hevent
          rw [hrest] at ht hends
          cases xs with
          | nil =>
              cases hu
              refine ⟨[(x, k)], [], x, g ++ b, rfl, ?_, ?_, .last hx⟩
              · rw [Text.isBlankText_append, hg, hb]
                rfl
              · simpa using ht
          | cons p xs =>
              obtain ⟨y, j⟩ := p
              obtain ⟨hy, v, rfl⟩ := hu.exists_eq_append
              refine ⟨(x, k) :: (y, j) :: xs, [], x ++ (g ++ (y ++ v)), b, rfl, hb, ?_,
                .cons hx hg ?_ hu⟩
              · simpa using ht
              · rintro hneeds rfl
                rw [List.nil_append, List.append_assoc] at hends
                exact (endsBefore_append_iff hy).mp hends hneeds

theorem clean_map_ofLexeme (xs : List (Text × TokenKind)) : Clean (xs.map Event.ofLexeme) := by
  intro f hf
  obtain ⟨p, -, hp⟩ := List.mem_map.mp hf
  cases hp

/-- The lines without faults are those that render some lexemes. -/
theorem clean_scan_iff {line : Text} : Clean (scan line) ↔ ∃ xs, RendersLine xs line := by
  refine ⟨exists_rendersLine, ?_⟩
  rintro ⟨xs, hxs⟩
  rw [hxs.scan_eq]
  exact clean_map_ofLexeme xs

theorem Event.eq_of_ofLexeme_eq : ∀ p q : Text × TokenKind, ofLexeme p = ofLexeme q → p = q := by
  rintro ⟨x, k⟩ ⟨y, j⟩ h
  cases h
  rfl

/-- A line renders one sequence of lexemes at most. -/
theorem RendersLine.unique {xs ys : List (Text × TokenKind)} {line : Text}
    (hxs : RendersLine xs line) (hys : RendersLine ys line) : xs = ys := by
  have heq : xs.map Event.ofLexeme = ys.map Event.ofLexeme := hxs.scan_eq.symm.trans hys.scan_eq
  exact (List.map_inj_right Event.eq_of_ofLexeme_eq).mp heq

theorem rendersLine_of_blank {b : Text} (hb : isBlankText b = true) : RendersLine [] b :=
  ⟨b, [], [], hb, rfl, by simp, .nil⟩

theorem filterMap_token?_ofLexeme (n : Nat) (xs : List (Text × TokenKind)) :
    (xs.map Event.ofLexeme).filterMap (Event.token? n) = xs.map fun (x, k) => ⟨x, k, n⟩ := by
  rw [List.filterMap_map, ← List.filterMap_eq_map]
  rfl

end Lexeme

/-! ## Streams -/

namespace Lexed

open Lexeme
open Text (isBlankText)

/-- A source text is free of lexical faults exactly if every line of it renders some lexemes. -/
theorem errors_eq_nil_iff_renders {source : Text} : (ofSource source).errors = [] ↔
    ∀ l ∈ Text.lines source, ∃ xs, RendersLine xs l := by
  obtain ⟨bs, hbs, hblank⟩ := Text.exists_dropBlankEnd_append (Text.lines source)
  simp only [errors_eq_nil_iff, eventsOfLine_eq_scan, clean_scan_iff]
  rw [hbs]
  constructor
  · intro h l hl
    rcases List.mem_append.mp hl with hl | hl
    · exact h l hl
    · exact ⟨[], rendersLine_of_blank (hblank l hl)⟩
  · intro h l hl
    exact h l (List.mem_append_left _ hl)

theorem filter_line_significant {source : Text} {i : Nat} {l : Text}
    (hl : (Text.lines source)[i]? = some l) {xs : List (Text × TokenKind)}
    (hxs : RendersLine xs l) : (ofSource source).significant.filter (fun t => t.line = i + 1) =
      xs.map fun (x, k) => ⟨x, k, i + 1⟩ := by
  obtain ⟨bs, hbs, hblank⟩ : ∃ bs, Text.lines source = programLines source ++ bs ∧
      ∀ b ∈ bs, isBlankText b = true := Text.exists_dropBlankEnd_append _
  have hfilter := filter_line_tokensFrom 1 i (programLines source)
  rw [Nat.add_comm 1 i, ← tokens_ofSource] at hfilter
  rw [significant, hfilter, ← filterMap_token?_ofLexeme, ← hxs.scan_eq]
  rw [hbs] at hl
  -- A line behind the program is blank and has no tokens.
  by_cases hi : i < (programLines source).length
  · rw [List.getElem?_append_left hi] at hl
    rw [hl, Option.map_some, Option.getD_some, eventsOfLine_eq_scan]
  · have hbehind := Nat.le_of_not_lt hi
    rw [List.getElem?_append_right hbehind] at hl
    rw [List.getElem?_eq_none hbehind, scan_of_blank (hblank l (List.mem_of_getElem? hl))]
    rfl

/-- A source text is free of lexical faults exactly if every line of it renders some lexemes. The
lexemes that a line renders are the only ones that it renders, and with their kinds they are the
significant tokens of that line. -/
theorem errors_eq_nil_iff_and_line_tokens (source : Text) :
    ((ofSource source).errors = [] ↔ ∀ l ∈ Text.lines source, ∃ xs, RendersLine xs l) ∧
      ∀ i l, (Text.lines source)[i]? = some l → ∀ xs, RendersLine xs l →
        (∀ ys, RendersLine ys l → ys = xs) ∧
          (ofSource source).significant.filter (fun t => t.line = i + 1) =
            xs.map fun (x, k) => ⟨x, k, i + 1⟩ := by
  refine ⟨errors_eq_nil_iff_renders, ?_⟩
  intro i l hl xs hxs
  exact ⟨fun ys hys => hys.unique hxs, filter_line_significant hl hxs⟩

theorem errors_eq_nil_iff_and_line_tokens_glued :
    RendersLine [(['i', 'f'], .ifWord), (['('], .leftParen), (['a'], .identifier),
        (['<', '>'], .notEqual), (['1'], .constant)] " if(a<> 1".toList ∧
      (ofSource "read(a);\n if(a<> 1".toList).significant.filter (fun t => t.line = 1 + 1) =
        [⟨['i', 'f'], .ifWord, 2⟩, ⟨['('], .leftParen, 2⟩, ⟨['a'], .identifier, 2⟩,
          ⟨['<', '>'], .notEqual, 2⟩, ⟨['1'], .constant, 2⟩] := by
  have hif : IsLexeme .ifWord ['i', 'f'] :=
    .word (c := 'i') (w := ['f']) rfl (List.all_eq_true.mp rfl) (by decide)
  have ha : IsLexeme .identifier ['a'] :=
    .word (c := 'a') (w := []) rfl (List.all_eq_true.mp rfl) (by decide)
  have h1 : IsLexeme .constant ['1'] := .number (by decide) (List.all_eq_true.mp rfl) (by decide)
  have hrenders : Renders [(['i', 'f'], .ifWord), (['('], .leftParen), (['a'], .identifier),
      (['<', '>'], .notEqual), (['1'], .constant)] "if(a<> 1".toList := by
    refine .cons (g := []) hif rfl (by decide) ?_
    refine .cons (g := []) (.symbol (by decide)) rfl (by decide) ?_
    refine .cons (g := []) ha rfl (by decide) ?_
    exact .cons (g := [' ']) (.symbol (by decide)) rfl (by decide) (.last h1)
  have hline : RendersLine _ " if(a<> 1".toList := ⟨[' '], _, [], rfl, rfl, rfl, hrenders⟩
  have hl : (Text.lines "read(a);\n if(a<> 1".toList)[1]? = some " if(a<> 1".toList := rfl
  exact ⟨hline, ((errors_eq_nil_iff_and_line_tokens _).2 1 _ hl _ hline).2⟩

end Lexed

end BlockLang
