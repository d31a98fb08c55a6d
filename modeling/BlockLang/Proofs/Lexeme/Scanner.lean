import BlockLang.Proofs.Lexeme.Shape

/-!
# Scanning by looking ahead

A scanner without states: it skips blank characters and cuts one piece after another off the line,
looking ahead for the span of characters that a piece consists of. It finds what the automaton
finds.
-/

namespace BlockLang

namespace Lexeme

/-! ## Pieces of a line -/

/-- A word or a number is complete at the end of a line and before a terminator. -/
def isBoundary (t : Text) : Bool := t.head?.all isTerminator

/-- The characters that an illegal run goes on with. -/
def isInRun (c : Char) : Bool := !isTerminator c

/-- The run up to the next terminator, whatever it holds. -/
def cutRun (c : Char) (t : Text) : Event × Text :=
  (.fault (.illegalSymbol (c :: t.takeWhile isInRun)), t.dropWhile isInRun)

/-- The piece that begins with a letter. Behind the first character that no word has, only letters
and digits are kept. -/
def cutWord (c : Char) (t : Text) : Event × Text :=
  let word := c :: t.takeWhile Char.isAlphanum
  let rest := t.dropWhile Char.isAlphanum
  if isBoundary rest then (.ofWord word, rest)
  else
    let run := rest.takeWhile isInRun
    (.fault (.illegalSymbol (word ++ run.take 1 ++ (run.drop 1).filter Char.isAlphanum)),
      rest.dropWhile isInRun)

/-- The piece that begins with a digit. -/
def cutNumber (c : Char) (t : Text) : Event × Text :=
  let rest := t.dropWhile Char.isDigit
  if isBoundary rest then (.ofNumber (c :: t.takeWhile Char.isDigit), rest) else cutRun c t

/-- The operators of two characters that begin with an angle bracket. -/
def pair? : Char → Char → Option TokenKind
  | '<', '=' => some .lessEqual
  | '<', '>' => some .notEqual
  | '>', '=' => some .greaterEqual
  | _, _ => none

/-- The piece that begins with the angle bracket `c`, which is of kind `k` when it stands alone. -/
def cutBracket (c : Char) (k : TokenKind) : Text → Event × Text
  | [] => (.token k [c], [])
  | d :: t =>
    match pair? c d with
    | some j => (.token j [c, d], t)
    | none =>
      if isOperatorChar d then
        (.fault (.illegalOperator (c :: (d :: t).takeWhile isOperatorChar)),
          (d :: t).dropWhile isOperatorChar)
      else (.token k [c], d :: t)

/-- The piece that begins with a colon. -/
def cutColon : Text → Event × Text
  | '=' :: t => (.token .assign ":=".toList, t)
  | t => (.fault .loneColon, t)

/-- The first piece of a line that begins with a character that is not blank, and what is behind it.
-/
def cut (c : Char) (t : Text) : Event × Text :=
  if c.isAlpha then cutWord c t
  else if c.isDigit then cutNumber c t
  else if let some k := single? c then (.token k [c], t)
  else if c = '<' then cutBracket c .less t
  else if c = '>' then cutBracket c .greater t
  else if c = ':' then cutColon t
  else cutRun c t

theorem length_dropWhile_le (p : Char → Bool) (t : Text) : (t.dropWhile p).length ≤ t.length :=
  (List.dropWhile_sublist p).length_le

theorem length_cutBracket_le (c : Char) (k : TokenKind) (t : Text) :
    (cutBracket c k t).2.length ≤ t.length := by
  fun_cases cutBracket c k t with
  | case1 => simp
  | case2 => simp
  | case3 => exact length_dropWhile_le _ _
  | case4 => simp

theorem length_cut_le (c : Char) (t : Text) : (cut c t).2.length ≤ t.length := by
  unfold cut
  split
  · unfold cutWord
    dsimp only
    split
    · exact length_dropWhile_le _ _
    · exact Nat.le_trans (length_dropWhile_le _ _) (length_dropWhile_le _ _)
  split
  · unfold cutNumber
    dsimp only
    split <;> exact length_dropWhile_le _ _
  split
  · simp
  split
  · exact length_cutBracket_le _ _ _
  split
  · exact length_cutBracket_le _ _ _
  split
  · fun_cases cutColon t <;> simp
  · exact length_dropWhile_le _ _

/-- The pieces of a line, from left to right. -/
def scan : Text → List Event
  | [] => []
  | c :: t => if isBlank c then scan t else (cut c t).1 :: scan (cut c t).2
termination_by t => t.length
decreasing_by
  · simp
  · exact Nat.lt_succ_of_le (length_cut_le c t)

/-! ## Runs of the automaton -/

theorem scan_nil : scan [] = [] := by
  conv => lhs; unfold scan

theorem scan_cons (c : Char) (t : Text) :
    scan (c :: t) = if isBlank c then scan t else (cut c t).1 :: scan (cut c t).2 := by
  conv => lhs; unfold scan

theorem scan_cons_visible {c : Char} (hc : isBlank c = false) (t : Text) :
    scan (c :: t) = (cut c t).1 :: scan (cut c t).2 := by
  rw [scan_cons, if_neg (by simp [hc])]

theorem scan_cons_blank {c : Char} (hc : isBlank c = true) (t : Text) :
    scan (c :: t) = scan t := by
  rw [scan_cons, if_pos hc]

/-- Every event takes at least one character. -/
theorem length_scan_le (t : Text) : (scan t).length ≤ t.length := by
  fun_induction scan t with
  | case1 => exact Nat.le_refl _
  | case2 c t hc ih => exact Nat.le_succ_of_le ih
  | case3 c t hc ih => exact Nat.succ_le_succ (Nat.le_trans ih (length_cut_le c t))

/-- The character that is read next; at the end of a line it is a blank. -/
def next (t : Text) : Char := t.head?.getD ' '

theorem isBoundary_eq (t : Text) : isBoundary t = isTerminator (next t) := by
  cases t <;> rfl

theorem next_dropWhile {p : Char → Bool} (hp : p ' ' = false) (t : Text) :
    p (next (t.dropWhile p)) = false := by
  have hhead := List.head?_dropWhile_not p t
  unfold next
  cases h : (t.dropWhile p).head? with
  | none => exact hp
  | some c =>
      rw [h] at hhead
      exact hhead

namespace State

theorem run_cons (s : State) (c : Char) (t : Text) :
    s.run (c :: t) = (s.step c).2 ++ (s.step c).1.run t := rfl

/-- A lexeme that the next character closes leaves that character to the rest of the line. -/
theorem run_of_after {s : State} {e : Event} {t : Text} (h : s.step (next t) = after e (next t)) :
    s.run t = e :: run .start t := by
  cases t with
  | nil =>
      have h : s.step ' ' = after e ' ' := h
      rw [run, h]
      rfl
  | cons c t =>
      have h : s.step c = after e c := h
      rw [run_cons, h]
      rfl

/-- A state that gathers some characters and passes over others goes through a whole span of them.
-/
theorem run_filter {p q : Char → Bool} (gather : Text → State)
    (h : ∀ w c, p c = true → (gather w).step c = (gather (if q c then c :: w else w), []))
    (w t : Text) : (gather w).run t =
      (gather (((t.takeWhile p).filter q).reverse ++ w)).run (t.dropWhile p) := by
  induction t generalizing w with
  | nil => rfl
  | cons c t ih =>
      cases hc : p c with
      | false => simp [hc]
      | true =>
          rw [run_cons, h w c hc, ih]
          cases hq : q c <;> simp [hc, hq]

theorem run_span {p : Char → Bool} (gather : Text → State)
    (h : ∀ w c, p c = true → (gather w).step c = (gather (c :: w), [])) (w t : Text) :
    (gather w).run t = (gather ((t.takeWhile p).reverse ++ w)).run (t.dropWhile p) := by
  rw [run_filter (p := p) (q := fun _ => true) gather h, List.filter_eq_self.mpr (by simp)]

/-- Such a state is closed at the end of the span, by a character that is left to the rest. -/
theorem run_gathered {p q : Char → Bool} (hp : p ' ' = false) (gather : Text → State)
    (close : Text → Event)
    (hstep : ∀ w c, p c = true → (gather w).step c = (gather (if q c then c :: w else w), []))
    (hclose : ∀ w c, p c = false → (gather w).step c = after (close w.reverse) c) (w t : Text) :
    (gather w).run t =
      close (w.reverse ++ (t.takeWhile p).filter q) :: run .start (t.dropWhile p) := by
  rw [run_filter gather hstep, run_of_after (hclose _ _ (next_dropWhile hp t)),
    List.reverse_append, List.reverse_reverse]

theorem run_illegalRun (w t : Text) : (illegalRun w).run t =
    .fault (.illegalSymbol (w.reverse ++ t.takeWhile isInRun)) ::
      run .start (t.dropWhile isInRun) := by
  have hgathered := run_gathered (p := isInRun) (q := fun _ => true) (by decide) illegalRun
    (fun x => .fault (.illegalSymbol x)) (by simp_all [step, isInRun])
    (by simp_all [step, isInRun]) w t
  rwa [List.filter_eq_self.mpr (fun _ _ => rfl)] at hgathered

theorem run_brokenWord (w t : Text) : (brokenWord w).run t =
    .fault (.illegalSymbol (w.reverse ++ (t.takeWhile isInRun).filter Char.isAlphanum)) ::
      run .start (t.dropWhile isInRun) := by
  refine run_gathered (by decide) brokenWord (fun x => .fault (.illegalSymbol x)) ?_ ?_ w t
  · intro w c hc
    cases hk : c.isAlphanum <;> simp_all [step, isInRun]
  · simp_all [step, isInRun]

theorem run_operatorTail (w t : Text) : (operatorTail w).run t =
    .fault (.illegalOperator (w.reverse ++ t.takeWhile isOperatorChar)) ::
      run .start (t.dropWhile isOperatorChar) := by
  have hgathered := run_gathered (p := isOperatorChar) (q := fun _ => true) (by decide) operatorTail
    (fun x => .fault (.illegalOperator x)) (by simp_all [step]) (by simp_all [step]) w t
  rwa [List.filter_eq_self.mpr (fun _ _ => rfl)] at hgathered

/-! ## Pieces of a run -/

/-- A run goes on with a piece and what is behind it. -/
def Cuts (s : State) (t : Text) (r : Event × Text) : Prop := s.run t = r.1 :: run .start r.2

theorem cuts_cutRun (c : Char) (t : Text) : Cuts (illegalRun [c]) t (cutRun c t) :=
  run_illegalRun [c] t

/-- Unless it begins with a terminator, what is behind a span begins with a stray character. -/
theorem exists_stray {p : Char → Bool} (hp : p ' ' = false) {t : Text}
    (h : isBoundary (t.dropWhile p) = false) :
    ∃ d u, t.dropWhile p = d :: u ∧ p d = false ∧ isInRun d = true := by
  have hnext := next_dropWhile hp t
  cases hd : t.dropWhile p with
  | nil => simp [hd, isBoundary] at h
  | cons d u =>
      rw [hd] at h hnext
      exact ⟨d, u, rfl, hnext, by simpa [isBoundary, isInRun] using h⟩

theorem cuts_cutWord (c : Char) (t : Text) : Cuts (word [c]) t (cutWord c t) := by
  have hstep : ∀ w c, Char.isAlphanum c = true → (word w).step c = (word (c :: w), []) := by
    intro w c hc
    simp [step, hc]
  have hnext := next_dropWhile (p := Char.isAlphanum) (by decide) t
  rw [Cuts, run_span word hstep]
  cases hb : isBoundary (t.dropWhile Char.isAlphanum) with
  | true =>
      have hclose : (word ((t.takeWhile Char.isAlphanum).reverse ++ [c])).step
          (next (t.dropWhile Char.isAlphanum)) =
            after (.ofWord (c :: t.takeWhile Char.isAlphanum))
              (next (t.dropWhile Char.isAlphanum)) := by
        rw [isBoundary_eq] at hb
        simp [step, hnext, hb]
      rw [run_of_after hclose]
      simp [cutWord, hb]
  | false =>
      obtain ⟨d, u, hu, hd, hrun⟩ := exists_stray (by decide) hb
      have hstray : ∀ w, (word w).step d = (brokenWord (d :: w), []) := by
        intro w
        simp_all [step, isInRun]
      rw [hu] at hb
      rw [hu, run_cons, hstray, List.nil_append, run_brokenWord]
      simp [cutWord, hu, hb, hrun]

theorem cuts_cutNumber (c : Char) (t : Text) : Cuts (number [c]) t (cutNumber c t) := by
  have hstep : ∀ w c, Char.isDigit c = true → (number w).step c = (number (c :: w), []) := by
    intro w c hc
    simp [step, hc]
  have hnext := next_dropWhile (p := Char.isDigit) (by decide) t
  rw [Cuts, run_span number hstep]
  cases hb : isBoundary (t.dropWhile Char.isDigit) with
  | true =>
      have hclose : (number ((t.takeWhile Char.isDigit).reverse ++ [c])).step
          (next (t.dropWhile Char.isDigit)) =
            after (.ofNumber (c :: t.takeWhile Char.isDigit))
              (next (t.dropWhile Char.isDigit)) := by
        rw [isBoundary_eq] at hb
        simp [step, hnext, hb]
      rw [run_of_after hclose]
      simp [cutNumber, hb]
  | false =>
      obtain ⟨d, u, hu, hd, hrun⟩ := exists_stray (by decide) hb
      have hstray : ∀ w, (number w).step d = (illegalRun (d :: w), []) := by
        intro w
        simp_all [step, isInRun]
      have hdigits : ∀ e ∈ t.takeWhile Char.isDigit, isInRun e = true := by
        intro e he
        have hdigit := List.all_eq_true.mp List.all_takeWhile e he
        simp [isInRun, isTerminator_of_isAlphanum (isAlphanum_of_isDigit hdigit)]
      have hspan : t.takeWhile isInRun = t.takeWhile Char.isDigit ++ d :: u.takeWhile isInRun ∧
          t.dropWhile isInRun = u.dropWhile isInRun := by
        have ht : t = t.takeWhile Char.isDigit ++ d :: u := by
          rw [← hu, List.takeWhile_append_dropWhile]
        rw [ht, List.takeWhile_append_of_pos hdigits, List.dropWhile_append_of_pos hdigits, ← ht]
        simp [hrun]
      rw [hu] at hb
      rw [hu, run_cons, hstray, List.nil_append, run_illegalRun]
      simp [cutNumber, hu, hb, cutRun, hspan]

/-- A state behind an angle bracket, by what it does with the next character. -/
theorem cuts_cutBracket {s : State} {c : Char} {k : TokenKind}
    (hpair : ∀ d j, pair? c d = some j → s.step d = (start, [.token j [c, d]]))
    (htail : ∀ d, pair? c d = none → isOperatorChar d = true →
      s.step d = (operatorTail [d, c], []))
    (hclose : ∀ d, pair? c d = none → isOperatorChar d = false →
      s.step d = after (.token k [c]) d) (t : Text) : Cuts s t (cutBracket c k t) := by
  fun_cases cutBracket c k t with
  | case1 =>
      have hnone : pair? c ' ' = none := by
        unfold pair?
        split <;> simp_all
      exact run_of_after (t := []) (hclose ' ' hnone (by decide))
  | case2 d t j hj =>
      rw [Cuts, run_cons, hpair d j hj]
      rfl
  | case3 d t hnone hop =>
      rw [Cuts, run_cons, htail d hnone hop, run_operatorTail]
      simp [hop]
  | case4 d t hnone hop =>
      exact run_of_after (t := d :: t) (hclose d hnone (by simpa using hop))

theorem pair?_less (d : Char) : pair? '<' d =
    if d = '=' then some .lessEqual else if d = '>' then some .notEqual else none := by
  unfold pair?
  split <;> simp_all

theorem pair?_greater (d : Char) : pair? '>' d = if d = '=' then some .greaterEqual else none := by
  unfold pair?
  split <;> simp_all

theorem ne_of_pair?_less {d : Char} (h : pair? '<' d = none) : d ≠ '=' ∧ d ≠ '>' := by
  constructor <;> rintro rfl <;> cases h

theorem ne_of_pair?_greater {d : Char} (h : pair? '>' d = none) : d ≠ '=' := by
  rintro rfl
  cases h

theorem cuts_cutBracket_less (t : Text) : Cuts lessSign t (cutBracket '<' .less t) := by
  refine cuts_cutBracket ?_ ?_ ?_ t
  · intro d j hj
    rw [pair?_less] at hj
    split at hj
    · subst d
      cases hj
      rfl
    split at hj
    · subst d
      cases hj
      rfl
    · cases hj
  · intro d hnone hop
    obtain ⟨heq, hgreater⟩ := ne_of_pair?_less hnone
    simp [step, heq, hgreater, hop]
  · intro d hnone hop
    obtain ⟨heq, hgreater⟩ := ne_of_pair?_less hnone
    simp [step, heq, hgreater, hop]

theorem cuts_cutBracket_greater (t : Text) : Cuts greaterSign t (cutBracket '>' .greater t) := by
  refine cuts_cutBracket ?_ ?_ ?_ t
  · intro d j hj
    rw [pair?_greater] at hj
    split at hj
    · subst d
      cases hj
      rfl
    · cases hj
  · intro d hnone hop
    simp [step, ne_of_pair?_greater hnone, hop]
  · intro d hnone hop
    simp [step, ne_of_pair?_greater hnone, hop]

theorem cuts_cutColon (t : Text) : Cuts colon t (cutColon t) := by
  fun_cases cutColon t with
  | case1 t => rfl
  | case2 t ht =>
      have hnext : next t ≠ '=' := by
        cases t with
        | nil => decide
        | cons d t =>
            rintro rfl
            exact ht t rfl
      have hclose : colon.step (next t) = after (.fault .loneColon) (next t) := by
        simp [step, hnext]
      exact run_of_after hclose

theorem opening_of_isBlank {c : Char} (hc : isBlank c = true) : opening c = (start, []) := by
  have halphanum : c.isAlphanum = false := isAlphanum_of_isBlank hc
  have hpunctuation : ∀ d ∈ punctuation, c ≠ d := by
    rintro d hd rfl
    exact not_mem_punctuation_of_isBlank hc hd
  have hsingle : single? c = none := by
    cases hs : single? c with
    | none => rfl
    | some k => exact absurd rfl (hpunctuation c (mem_punctuation_of_single? hs))
  simp only [Char.isAlphanum, Bool.or_eq_false_iff] at halphanum
  simp [opening, halphanum, hsingle, hpunctuation '<' (by decide), hpunctuation '>' (by decide),
    hpunctuation ':' (by decide), hc]

theorem run_start_blank {c : Char} (hc : isBlank c = true) (t : Text) :
    run .start (c :: t) = run .start t := by
  rw [run_cons, step, opening_of_isBlank hc, List.nil_append]

/-- A piece of the line is cut off at every character that is not blank. -/
theorem run_start_visible {c : Char} (hc : isBlank c = false) (t : Text) :
    run .start (c :: t) = (cut c t).1 :: run .start (cut c t).2 := by
  rw [run_cons, step, opening, cut]
  split
  · exact cuts_cutWord c t
  split
  · exact cuts_cutNumber c t
  cases hs : single? c with
  | some k => rfl
  | none =>
      dsimp only
      split
      · subst c
        exact cuts_cutBracket_less t
      split
      · subst c
        exact cuts_cutBracket_greater t
      split
      · exact cuts_cutColon t
      rw [if_neg (by simp [hc])]
      exact cuts_cutRun c t

end State

/-- The automaton finds on a line what the scanner finds. -/
theorem eventsOfLine_eq_scan (line : Text) : eventsOfLine line = scan line := by
  unfold eventsOfLine
  fun_induction scan line with
  | case1 => rfl
  | case2 c t hc ih => rw [State.run_start_blank hc, ih]
  | case3 c t hc ih => rw [State.run_start_visible (by simpa using hc), ih]

end Lexeme

/-! ## Streams -/

/-- The token stream of a source text, with the scanner in place of the automaton. -/
def Lexed.scanned (source : Text) : Lexed :=
  let numbered := (programLines source).zipIdx 1
  { tokens := numbered.flatMap (fun (text, n) =>
      (Lexeme.scan text).filterMap (Lexeme.Event.token? n) ++ [Token.endOfLine n]) ++
        [Token.endOfFile (numbered.length + 1)]
    errors := numbered.flatMap fun (text, n) =>
      (Lexeme.scan text).filterMap (Lexeme.Event.diagnostic? n) }

/-- On every line the automaton finds the pieces that the scanner cuts off, in their order, and so
the tokens and faults of every source text are those of the scanner. -/
theorem Lexed.ofSource_eq_scanned : (∀ line, Lexeme.eventsOfLine line = Lexeme.scan line) ∧
    ∀ source, ofSource source = scanned source := by
  refine ⟨Lexeme.eventsOfLine_eq_scan, fun source => ?_⟩
  simp only [ofSource, scanned, lineTokens, lineErrors, Lexeme.eventsOfLine_eq_scan]

end BlockLang
