import BlockLang.Proofs.Artifact.Decoding

/-!
# The format of token files

A token file is read if and only if each of its lines holds a lexeme and the code of a kind. Otherwise
it is the first line that does not which tells the fault, whatever is before it and behind it.
-/

namespace BlockLang

namespace Text

variable {t x : Text} {n : Nat}

/-! ## Trimmed texts -/

theorem isBlank_of_mem_getLast?_trimEnd {c : Char} (h : c ∈ (trimEnd t).getLast?) :
    isBlank c = false := by
  induction t with
  | nil => cases h
  | cons d t ih =>
      rw [trimEnd] at h
      split at h
      · split at h
        · cases h
        · rename_i hd
          cases h
          simpa using hd
      · rename_i e u hu
        rw [List.getLast?_cons_cons, ← hu] at h
        exact ih h

theorem trimEnd_of_getLast? (h : ∀ c ∈ t.getLast?, isBlank c = false) : trimEnd t = t := by
  rcases List.eq_nil_or_concat t with rfl | ⟨u, c, rfl⟩
  · rfl
  · rw [List.concat_eq_append] at h ⊢
    exact trimEnd_append_visible (h c List.getLast?_concat) u

theorem trim_of_visible (h : IsVisible x) : trim x = x := by
  have hstart : trimStart x = x := by simpa using trimStart_append_of_visible h []
  rw [trim, hstart]
  exact trimEnd_of_getLast? fun c hc => h.2 c (List.mem_of_getLast? hc)

/-- A text whose last character is not blank is a blank text and what is left when it is trimmed. -/
theorem exists_eq_append_trim (h : ∀ c ∈ t.getLast?, isBlank c = false) :
    ∃ gap, isBlankText gap = true ∧ t = gap ++ trim t := by
  have hcut : t.takeWhile isBlank ++ trimStart t = t := List.takeWhile_append_dropWhile
  refine ⟨t.takeWhile isBlank, List.all_takeWhile, ?_⟩
  have hend : trim t = trimStart t := trimEnd_of_getLast? fun c hc => h c <| by
    rw [← hcut, List.getLast?_append, Option.mem_def.mp hc]
    rfl
  rw [hend, hcut]

/-! ## Numerals -/

/-- A numeral and its value: decimal digits, with or without a plus sign in front. -/
def IsNumeral (t : Text) (n : Nat) : Prop :=
  ∃ sign digits, t = sign ++ digits ∧ (sign = [] ∨ sign = ['+']) ∧ digits ≠ [] ∧
    (∀ c ∈ digits, c.isDigit = true) ∧ Nat.ofDigitChars 10 digits 0 = n

theorem exists_sign (t : Text) : ∃ sign, t = sign ++ dropPlus t ∧ (sign = [] ∨ sign = ['+']) := by
  fun_cases dropPlus t with
  | case1 u => exact ⟨['+'], rfl, .inr rfl⟩
  | case2 => exact ⟨[], rfl, .inl rfl⟩

theorem numeral?_eq_some_iff : numeral? t = some n ↔ IsNumeral t n := by
  constructor
  · intro h
    obtain ⟨sign, ht, hsign⟩ := exists_sign t
    simp only [numeral?, Option.ite_none_right_eq_some, Option.some.injEq, List.all_eq_true] at h
    obtain ⟨⟨hne, hdigits⟩, hvalue⟩ := h
    exact ⟨sign, dropPlus t, ht, hsign, hne, hdigits, hvalue⟩
  · rintro ⟨sign, digits, rfl, hsign, hne, hdigits, rfl⟩
    have hdrop : dropPlus (sign ++ digits) = digits := by
      rcases hsign with rfl | rfl
      · exact dropPlus_of_digits hdigits
      · rfl
    simp only [numeral?, hdrop]
    exact if_pos ⟨hne, List.all_eq_true.mpr hdigits⟩

theorem IsNumeral.isVisible (h : IsNumeral t n) : IsVisible t := by
  obtain ⟨sign, digits, rfl, hsign, hne, hdigits, -⟩ := h
  refine ⟨by simp [hne], fun c hc => ?_⟩
  rcases List.mem_append.mp hc with hc | hc
  · rcases hsign with rfl | rfl
    · cases hc
    · rcases List.mem_singleton.mp hc with rfl
      rfl
  · exact Lexeme.isBlank_of_isAlphanum (Lexeme.isAlphanum_of_isDigit (hdigits c hc))

end Text

/-! ## Codes -/

theorem TokenKind.code_inj {j k : TokenKind} : j.code = k.code ↔ j = k := by
  refine ⟨fun h => ?_, congrArg code⟩
  have hj := ofCode?_code j
  rw [h, ofCode?_code] at hj
  exact (Option.some.inj hj).symm

theorem TokenKind.one_le_code (k : TokenKind) : 1 ≤ k.code ∧ k.code ≤ 25 := by
  cases k <;> decide

/-- The numbers from 1 to 25 are codes, and no others are. -/
theorem TokenKind.exists_code_eq_iff {n : Nat} : (∃ k : TokenKind, k.code = n) ↔ 1 ≤ n ∧ n ≤ 25 := by
  constructor
  · rintro ⟨k, rfl⟩
    exact k.one_le_code
  · rintro ⟨hone, hle⟩
    have hcodes : ∀ m < 26, 1 ≤ m → ∃ k ∈ all, k.code = m := by decide
    obtain ⟨k, -, hk⟩ := hcodes n (Nat.lt_succ_of_le hle) hone
    exact ⟨k, hk⟩

namespace TokenFile

open Text

variable {e x c : Text} {k : TokenKind} {m n line : Nat} {es : List Text} {ts : List Token}

/-! ## Entries -/

/-- A line that holds lexeme `x` and code `n`: between blank characters at its ends there are a lexeme
without a space, a space, what other blank characters there may be, and a numeral that has a value
from 1 to 25. -/
def IsEntry (e x : Text) (n : Nat) : Prop :=
  ∃ gap numeral, trim e = x ++ ' ' :: (gap ++ numeral) ∧ ' ' ∉ x ∧ isBlankText gap = true ∧
    IsNumeral numeral n ∧ 1 ≤ n ∧ n ≤ 25

/-- A line is as the format wants it. -/
def Conforms (e : Text) : Prop := ∃ x n, IsEntry e x n

theorem kindOfCode?_eq_some_iff : kindOfCode? c = some k ↔ numeral? c = some k.code := by
  rw [kindOfCode?, Option.bind_eq_bind, Option.bind_eq_some_iff]
  constructor
  · rintro ⟨n, hn, hk⟩
    rw [hn, TokenKind.code_of_ofCode? hk]
  · exact fun hn => ⟨k.code, hn, TokenKind.ofCode?_code k⟩

theorem isEntry_iff : IsEntry e x n ↔
    ∃ c k, splitFirst? ' ' (trim e) = some (x, c) ∧ kindOfCode? (trim c) = some k ∧ k.code = n := by
  constructor
  · rintro ⟨gap, numeral, htrim, hspace, hgap, hnumeral, hcode⟩
    obtain ⟨k, rfl⟩ := TokenKind.exists_code_eq_iff.mpr hcode
    refine ⟨gap ++ numeral, k, by rw [htrim, splitFirst?_append hspace], ?_, rfl⟩
    have hgone : trim (gap ++ numeral) = numeral := by
      rw [trim, trimStart_append_of_blank hgap]
      exact trim_of_visible hnumeral.isVisible
    rw [kindOfCode?_eq_some_iff, hgone, numeral?_eq_some_iff]
    exact hnumeral
  · rintro ⟨c, k, hsplit, hcode, rfl⟩
    obtain ⟨htrim, hspace⟩ := splitFirst?_eq_some hsplit
    rw [kindOfCode?_eq_some_iff, numeral?_eq_some_iff] at hcode
    -- the code ends where the trimmed line ends
    have hlast : ∀ d ∈ c.getLast?, isBlank d = false := fun d hd => by
      refine isBlank_of_mem_getLast?_trimEnd (t := trimStart e) ?_
      rw [← trim, htrim, List.getLast?_append, List.getLast?_cons, Option.mem_def.mp hd]
      rfl
    obtain ⟨gap, hgap, hc⟩ := exists_eq_append_trim hlast
    exact ⟨gap, trim c, by rw [← hc, htrim], hspace, hgap, hcode, k.one_le_code⟩

/-- A line holds one lexeme and one code at most. -/
theorem IsEntry.unique {y : Text} {l : Nat} (h : IsEntry e x n) (h' : IsEntry e y l) :
    x = y ∧ n = l := by
  obtain ⟨c, k, hsplit, hcode, rfl⟩ := isEntry_iff.mp h
  obtain ⟨d, j, hsplit', hcode', rfl⟩ := isEntry_iff.mp h'
  cases hsplit.symm.trans hsplit'
  cases hcode.symm.trans hcode'
  exact ⟨rfl, rfl⟩

theorem decodeEntry_eq_ok_iff : decodeEntry m e = .ok (x, k) ↔ IsEntry e x k.code := by
  rw [isEntry_iff, decodeEntry]
  cases hsplit : splitFirst? ' ' (trim e) with
  | none => simp
  | some p =>
      obtain ⟨y, c⟩ := p
      cases hc : kindOfCode? (trim c) with
      | none => simp [hc]
      | some j => simp [hc, TokenKind.code_inj, and_assoc]

theorem Conforms.exists_decodeEntry (h : Conforms e) (m : Nat) :
    ∃ x k, decodeEntry m e = .ok (x, k) := by
  obtain ⟨x, n, h⟩ := h
  obtain ⟨c, k, -, -, rfl⟩ := isEntry_iff.mp h
  exact ⟨x, k, decodeEntry_eq_ok_iff.mpr h⟩

theorem decodeEntry_of_no_space (h : ' ' ∉ trim e) (m : Nat) :
    decodeEntry m e = .error (.malformedEntry m e) := by
  rw [decodeEntry]
  split
  · rfl
  · rename_i x c hsplit
    rw [(splitFirst?_eq_some hsplit).1] at h
    simp at h

theorem decodeEntry_of_space (h : ¬ Conforms e) (htrim : trim e = x ++ ' ' :: c) (hx : ' ' ∉ x)
    (m : Nat) : decodeEntry m e = .error (.invalidCode m (trim c)) := by
  have hsplit : splitFirst? ' ' (trim e) = some (x, c) := by rw [htrim, splitFirst?_append hx]
  cases hcode : kindOfCode? (trim c) with
  | some k => exact absurd ⟨x, k.code, isEntry_iff.mpr ⟨c, k, hsplit, hcode, rfl⟩⟩ h
  | none => simp only [decodeEntry, hsplit, hcode]

/-! ## Files -/

theorem decodeFrom_of_conforms (h : ∀ e ∈ es, Conforms e) (m line : Nat) :
    ∃ ts, decodeFrom m line es = .ok ts := by
  induction es generalizing m line with
  | nil => exact ⟨[], rfl⟩
  | cons e es ih =>
      rw [List.forall_mem_cons] at h
      obtain ⟨x, k, hx⟩ := h.1.exists_decodeEntry m
      obtain ⟨ts, hts⟩ := ih h.2 (m + 1) (if k = .endOfLine then line + 1 else line)
      exact ⟨_, decodeFrom_cons_eq_ok.mpr ⟨x, k, ts, hx, hts, rfl⟩⟩

/-- The tokens that were read are what the lines hold, one by one. -/
theorem isEntry_of_decodeFrom (h : decodeFrom m line es = .ok ts) :
    List.Forall₂ (fun e t => IsEntry e t.lexeme t.kind.code) es ts := by
  induction es generalizing m line ts with
  | nil =>
      cases h
      exact .nil
  | cons e es ih =>
      obtain ⟨x, k, us, hx, hus, rfl⟩ := decodeFrom_cons_eq_ok.mp h
      exact .cons (decodeEntry_eq_ok_iff.mp hx) (ih hus)

theorem conforms_of_decodeFrom (h : decodeFrom m line es = .ok ts) (he : e ∈ es) : Conforms e := by
  have hentries := isEntry_of_decodeFrom h
  clear h
  induction hentries with
  | nil => cases he
  | cons hd _ ih =>
      rcases List.mem_cons.mp he with rfl | he
      · exact ⟨_, _, hd⟩
      · exact ih he

/-- A fault behind lines that can be read is the fault of the whole. -/
theorem decodeFrom_of_fault {before after : List Text} {f : Fault}
    (hbefore : ∀ d ∈ before, Conforms d) (he : decodeEntry (m + before.length) e = .error f) :
    decodeFrom m line (before ++ e :: after) = .error f := by
  induction before generalizing m line with
  | nil =>
      rw [List.length_nil, Nat.add_zero] at he
      simp [decodeFrom, he, bind, Except.bind]
  | cons d before ih =>
      rw [List.forall_mem_cons] at hbefore
      obtain ⟨x, k, hx⟩ := hbefore.1.exists_decodeEntry m
      rw [List.length_cons, Nat.add_comm before.length, ← Nat.add_assoc] at he
      have hrest : ∀ l, decodeFrom (m + 1) l (before ++ e :: after) = .error f :=
        fun _ => ih hbefore.2 he
      simp [decodeFrom, hx, hrest, bind, Except.bind]

/-- A text is read as a token file if and only if all its lines conform. The tokens are then what the
lines hold, on the lines that the end markers tell. Otherwise the first line that does not conform
tells the fault: it is malformed if it has no space between two parts, and else what is behind the
first space is no code. -/
theorem decode_accepts_format (text : Text) :
    ((∃ ts, decode text = .ok ts) ↔ ∀ e ∈ lines text, Conforms e) ∧
    (∀ ts, decode text = .ok ts →
      List.Forall₂ (fun e t => ∀ x n, IsEntry e x n ↔ x = t.lexeme ∧ n = t.kind.code)
        (lines text) ts ∧
      ∀ i t, ts[i]? = some t → t.line = 1 + (ts.take i).countP (·.kind = .endOfLine)) ∧
    ∀ before e after, lines text = before ++ e :: after → (∀ d ∈ before, Conforms d) →
      ¬ Conforms e →
      (' ' ∉ trim e → decode text = .error (.malformedEntry (before.length + 1) e)) ∧
      ∀ x c, trim e = x ++ ' ' :: c → ' ' ∉ x →
        decode text = .error (.invalidCode (before.length + 1) (trim c)) := by
  refine ⟨⟨?_, fun h => decodeFrom_of_conforms h 1 1⟩, ?_, ?_⟩
  · rintro ⟨ts, hts⟩ e he
    exact conforms_of_decodeFrom hts he
  · intro ts hts
    refine ⟨(isEntry_of_decodeFrom hts).imp fun e t he x n => ?_,
      Token.stamped_iff.mp (decode_ok hts).2⟩
    constructor
    · exact fun hx => hx.unique he
    · rintro ⟨rfl, rfl⟩
      exact he
  · intro before e after hlines hbefore he
    rw [decode, hlines]
    constructor
    · intro hspace
      exact decodeFrom_of_fault hbefore (Nat.add_comm 1 _ ▸ decodeEntry_of_no_space hspace _)
    · intro x c htrim hx
      exact decodeFrom_of_fault hbefore (Nat.add_comm 1 _ ▸ decodeEntry_of_space he htrim hx _)

/-- A tab around the code is let pass and a code that no kind has is not; the line that is malformed
comes too late to tell the fault. -/
theorem decode_accepts_format_second_line :
    IsEntry " begin \t+01".toList "begin".toList 1 ∧ ¬ Conforms "x  26 ".toList ∧
      decode " begin \t+01\r\nx  26 \ny".toList = .error (.invalidCode 2 "26".toList) := by
  have hfirst : decode " begin \t+01".toList = .ok [⟨"begin".toList, .beginWord, 1⟩] := rfl
  have hentry : IsEntry " begin \t+01".toList "begin".toList 1 := by
    obtain ⟨hentries, -⟩ := (decode_accepts_format _).2.1 _ hfirst
    rw [show lines " begin \t+01".toList = [" begin \t+01".toList] from rfl,
      List.forall₂_cons] at hentries
    exact (hentries.1 _ _).mpr ⟨rfl, rfl⟩
  have hsecond : ¬ Conforms "x  26 ".toList := fun h => by
    obtain ⟨ts, hts⟩ := (decode_accepts_format "x  26 ".toList).1.mpr fun e he =>
      List.mem_singleton.mp he ▸ h
    cases hts
  refine ⟨hentry, hsecond, ?_⟩
  have hlines : lines " begin \t+01\r\nx  26 \ny".toList =
      [" begin \t+01".toList] ++ "x  26 ".toList :: ["y".toList] := rfl
  refine ((decode_accepts_format _).2.2 _ _ _ hlines ?_ hsecond).2 "x".toList " 26".toList rfl
    (by decide)
  exact fun d hd => List.mem_singleton.mp hd ▸ ⟨_, _, hentry⟩

end TokenFile

end BlockLang
