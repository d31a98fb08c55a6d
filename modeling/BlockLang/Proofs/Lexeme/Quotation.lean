import BlockLang.Proofs.Lexeme.Scanner

/-!
# Texts in lexical faults

A lexical fault quotes the piece of the line that it is about. Whatever else that piece holds, it
holds no blank character, since the automaton closes at a blank whatever is in progress. The only
blank characters in the wording of the fault are then spaces, and it stays on one line.
-/

namespace BlockLang

open Text (IsVisible)

/-! ## Texts whose blank characters are spaces -/

namespace Text

/-- The text holds no blank character other than the space. -/
def BlanksAreSpaces (t : Text) : Prop := ∀ c ∈ t, isBlank c = false ∨ c = ' '

/-- Only the characters of the text are looked at, not all there are. -/
instance (t : Text) : Decidable (BlanksAreSpaces t) :=
  decidable_of_iff (t.all (fun c => !isBlank c || c == ' ') = true) (by simp [BlanksAreSpaces])

namespace BlanksAreSpaces

variable {t u : Text}

theorem append (ht : BlanksAreSpaces t) (hu : BlanksAreSpaces u) : BlanksAreSpaces (t ++ u) :=
  fun c hc => (List.mem_append.mp hc).elim (ht c) (hu c)

theorem of_isVisible (h : IsVisible t) : BlanksAreSpaces t := fun c hc => .inl (h.2 c hc)

theorem decimal (n : Nat) : BlanksAreSpaces (decimal n) := fun _ hc =>
  .inl (Lexeme.isBlank_of_isAlphanum (Lexeme.isAlphanum_of_isDigit (isDigit_of_mem_decimal hc)))

/-- Such a text is a line of its own, whatever stands around it. -/
theorem lineFeed (h : BlanksAreSpaces t) : '\n' ∉ t := fun hm => absurd (h _ hm) (by decide)

theorem carriageReturn (h : BlanksAreSpaces t) : t.getLast? ≠ some '\r' := fun hm =>
  absurd (h _ (List.mem_of_getLast? hm)) (by decide)

end BlanksAreSpaces

end Text

/-! ## What a fault quotes -/

def LexicalFault.text? : LexicalFault → Option Text
  | illegalSymbol x | illegalOperator x | wordTooLong x | numberTooLong x => some x
  | loneColon => none

namespace Lexeme

/-- What a fault quotes, if anything, holds no blank character. -/
def Event.QuotesVisible : Event → Prop
  | .token _ _ => True
  | .fault f => ∀ x ∈ f.text?, IsVisible x

theorem isVisible_cons {c : Char} {t : Text} (hc : isBlank c = false)
    (ht : ∀ d ∈ t, isBlank d = false) : IsVisible (c :: t) :=
  ⟨by simp, List.forall_mem_cons.mpr ⟨hc, ht⟩⟩

theorem isBlank_of_mem_takeWhile {p : Char → Bool} (hp : ∀ d, p d = true → isBlank d = false)
    {t : Text} {d : Char} (h : d ∈ t.takeWhile p) : isBlank d = false :=
  hp d (List.all_eq_true.mp List.all_takeWhile d h)

theorem isBlank_of_isInRun {d : Char} (h : isInRun d = true) : isBlank d = false := by
  simp only [isInRun, isTerminator, Bool.not_eq_true', Bool.or_eq_false_iff] at h
  exact h.1

theorem isBlank_of_isOperatorChar {d : Char} (h : isOperatorChar d = true) :
    isBlank d = false := by
  simp only [isOperatorChar, Bool.and_eq_true, List.contains_iff_mem] at h
  exact isBlank_of_mem_punctuation h.2

theorem quotesVisible_ofWord {w : Text} (h : IsVisible w) : (Event.ofWord w).QuotesVisible := by
  unfold Event.ofWord
  split
  · trivial
  · simpa [Event.QuotesVisible, LexicalFault.text?] using h

theorem quotesVisible_ofNumber {w : Text} (h : IsVisible w) :
    (Event.ofNumber w).QuotesVisible := by
  unfold Event.ofNumber
  split
  · trivial
  · simpa [Event.QuotesVisible, LexicalFault.text?] using h

section Cuts

variable {c : Char}

theorem quotesVisible_cutRun (hc : isBlank c = false) (t : Text) :
    (cutRun c t).1.QuotesVisible := by
  simpa [cutRun, Event.QuotesVisible, LexicalFault.text?] using
    isVisible_cons hc fun d hd => isBlank_of_mem_takeWhile (fun _ => isBlank_of_isInRun) hd

theorem quotesVisible_cutWord (hc : isBlank c = false) (t : Text) :
    (cutWord c t).1.QuotesVisible := by
  have hword : ∀ d ∈ t.takeWhile Char.isAlphanum, isBlank d = false := fun d hd =>
    isBlank_of_mem_takeWhile (fun _ => isBlank_of_isAlphanum) hd
  unfold cutWord
  dsimp only
  split
  · exact quotesVisible_ofWord (isVisible_cons hc hword)
  · have hrun : ∀ d ∈ (t.dropWhile Char.isAlphanum).takeWhile isInRun, isBlank d = false :=
      fun d hd => isBlank_of_mem_takeWhile (fun _ => isBlank_of_isInRun) hd
    intro x hx
    obtain rfl := Option.mem_some.mp hx
    refine isVisible_cons hc fun d hd => ?_
    -- the run is quoted in part, but nothing is added to it
    rcases List.mem_append.mp hd with hd | hd
    · rcases List.mem_append.mp hd with hd | hd
      · exact hword d hd
      · exact hrun d (List.mem_of_mem_take hd)
    · exact hrun d (List.mem_of_mem_drop (List.mem_filter.mp hd).1)

theorem quotesVisible_cutNumber (hc : isBlank c = false) (t : Text) :
    (cutNumber c t).1.QuotesVisible := by
  unfold cutNumber
  dsimp only
  split
  · refine quotesVisible_ofNumber (isVisible_cons hc fun d hd => ?_)
    exact isBlank_of_mem_takeWhile
      (fun _ he => isBlank_of_isAlphanum (isAlphanum_of_isDigit he)) hd
  · exact quotesVisible_cutRun hc t

theorem quotesVisible_cutBracket (hc : isBlank c = false) (k : TokenKind) (t : Text) :
    (cutBracket c k t).1.QuotesVisible := by
  fun_cases cutBracket c k t with
  | case1 => trivial
  | case2 => trivial
  | case3 d t =>
      intro x hx
      obtain rfl := Option.mem_some.mp hx
      exact isVisible_cons hc fun e he =>
        isBlank_of_mem_takeWhile (fun _ => isBlank_of_isOperatorChar) he
  | case4 => trivial

theorem quotesVisible_cutColon (t : Text) : (cutColon t).1.QuotesVisible := by
  fun_cases cutColon t with
  | case1 => trivial
  | case2 =>
      intro x hx
      cases hx

theorem quotesVisible_cut (hc : isBlank c = false) (t : Text) : (cut c t).1.QuotesVisible := by
  unfold cut
  split
  · exact quotesVisible_cutWord hc t
  split
  · exact quotesVisible_cutNumber hc t
  split
  · trivial
  split
  · exact quotesVisible_cutBracket hc _ t
  split
  · exact quotesVisible_cutBracket hc _ t
  split
  · exact quotesVisible_cutColon t
  · exact quotesVisible_cutRun hc t

end Cuts

theorem quotesVisible_of_mem_scan (t : Text) : ∀ e ∈ scan t, e.QuotesVisible := by
  fun_induction scan t with
  | case1 => simp
  | case2 c t hc ih => exact ih
  | case3 c t hc ih =>
      exact List.forall_mem_cons.mpr ⟨quotesVisible_cut (by simpa using hc) t, ih⟩

end Lexeme

/-- Whatever the source text, its lexical faults quote no blank characters. -/
theorem Lexed.isVisible_of_mem_errors {source : Text} {d : Diagnostic LexicalFault}
    (h : d ∈ (ofSource source).errors) : ∀ x ∈ d.fault.text?, IsVisible x := by
  simp only [ofSource, List.mem_flatMap, lineErrors, List.mem_filterMap] at h
  obtain ⟨⟨l, n⟩, -, e, he, hd⟩ := h
  rw [Lexeme.eventsOfLine_eq_scan] at he
  have hvisible := Lexeme.quotesVisible_of_mem_scan l e he
  cases e with
  | token k x => cases hd
  | fault f =>
      cases hd
      exact hvisible

/-! ## Wordings -/

open Text (BlanksAreSpaces)

theorem LexicalFault.blanksAreSpaces_message {f : LexicalFault}
    (h : ∀ x ∈ f.text?, IsVisible x) : BlanksAreSpaces f.message := by
  cases f with
  | loneColon => exact (by decide)
  | _ x => exact .append (.append (by decide) (.of_isVisible (h x rfl))) (by decide)

theorem Diagnostic.blanksAreSpaces_render {φ : Type} [Fault φ] {d : Diagnostic φ}
    (h : BlanksAreSpaces (Fault.message d.fault)) : BlanksAreSpaces d.render :=
  .append (.append (.append (by decide) (.decimal d.line)) (by decide)) h

theorem Lexed.blanksAreSpaces_of_mem_errors {source : Text} {d : Diagnostic LexicalFault}
    (h : d ∈ (ofSource source).errors) : BlanksAreSpaces d.render :=
  d.blanksAreSpaces_render (d.fault.blanksAreSpaces_message (isVisible_of_mem_errors h))

end BlockLang
