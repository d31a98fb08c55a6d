import BlockLang.Proofs.Artifact.TokenFile
import BlockLang.Proofs.Text.Lines

/-!
# What a token file can hold

Whatever text is read as a token file, its lexemes can be told from the columns around them and its
lines are those that the end markers tell. These are the streams that come back unchanged when they
are written and read again.
-/

namespace BlockLang.TokenFile

open Text

theorem decodeFrom_cons_eq_ok {n line : Nat} {e : Text} {es : List Text} {ts : List Token} :
    decodeFrom n line (e :: es) = .ok ts ↔ ∃ x k us, decodeEntry n e = .ok (x, k) ∧
      decodeFrom (n + 1) (if k = .endOfLine then line + 1 else line) es = .ok us ∧
        ts = ⟨x, k, line⟩ :: us := by
  cases he : decodeEntry n e with
  | error f => simp [decodeFrom, he, bind, Except.bind]
  | ok r =>
      obtain ⟨x, k⟩ := r
      have hcons : decodeFrom n line (e :: es) =
          (decodeFrom (n + 1) (if k = .endOfLine then line + 1 else line) es).map
            (⟨x, k, line⟩ :: ·) := by
        simp only [decodeFrom, he, bind, Except.bind]
        cases decodeFrom (n + 1) (if k = .endOfLine then line + 1 else line) es <;> rfl
      rw [hcons]
      constructor
      · intro h
        cases hus : decodeFrom (n + 1) (if k = .endOfLine then line + 1 else line) es with
        | error f => simp [hus, Except.map] at h
        | ok us =>
            rw [hus] at h
            cases h
            exact ⟨x, k, us, rfl, hus, rfl⟩
      · rintro ⟨y, j, us, hy, hus, rfl⟩
        cases hy
        rw [hus]
        rfl

/-! ## Lexemes that were read -/

theorem storable_of_decodeEntry {n : Nat} {e x : Text} {k : TokenKind} (he : '\n' ∉ e)
    (h : decodeEntry n e = .ok (x, k)) : Storable x := by
  unfold decodeEntry at h
  split at h
  · cases h
  · rename_i y c hsplit
    split at h
    · cases h
    · cases h
      obtain ⟨htrim, hspace⟩ := splitFirst?_eq_some hsplit
      have hhead : ∀ d ∈ (x ++ ' ' :: c).head?, isBlank d = false := by
        rw [← htrim]
        exact fun d => isBlank_of_mem_head?_trim
      have hne : x ≠ [] := by
        -- the space that was split at would be the first character of a trimmed text
        rintro rfl
        exact absurd (hhead ' ' rfl) (by decide)
      refine ⟨hne, ?_, hspace, ?_⟩
      · intro d hd
        apply hhead
        rw [List.head?_append, Option.mem_def.mp hd]
        rfl
      · intro hn
        apply he
        apply mem_of_mem_trim
        rw [htrim]
        exact List.mem_append_left _ hn

theorem decodeFrom_ok {n line : Nat} {es : List Text} {ts : List Token} (hes : ∀ e ∈ es, '\n' ∉ e)
    (h : decodeFrom n line es = .ok ts) :
    (∀ t ∈ ts, Storable t.lexeme) ∧ Token.Stamped line ts := by
  induction es generalizing n line ts with
  | nil =>
      cases h
      exact ⟨by simp, trivial⟩
  | cons e es ih =>
      obtain ⟨x, k, us, hx, hus, rfl⟩ := decodeFrom_cons_eq_ok.mp h
      obtain ⟨hstorable, hstamped⟩ := ih (fun e he => hes e (List.mem_cons_of_mem _ he)) hus
      refine ⟨?_, rfl, hstamped⟩
      intro t ht
      rcases List.mem_cons.mp ht with rfl | ht
      · exact storable_of_decodeEntry (hes e (List.mem_cons_self ..)) hx
      · exact hstorable t ht

theorem decode_ok {text : Text} {ts : List Token} (h : decode text = .ok ts) :
    (∀ t ∈ ts, Storable t.lexeme) ∧ Token.Stamped 1 ts :=
  decodeFrom_ok (fun _ => lineFeed_not_mem_of_mem_lines) h

/-! ## Streams that come back -/

/-- A stream of tokens survives being written and read if and only if its lexemes are storable and
the lines of its tokens count the end markers before them; every stream that was read is such. -/
theorem decode_encode_eq_ok_iff :
    (∀ ts, decode (encode ts) = .ok ts ↔ (∀ t ∈ ts, Storable t.lexeme) ∧
      ∀ i t, ts[i]? = some t → t.line = 1 + (ts.take i).countP (·.kind = .endOfLine)) ∧
    ∀ text ts, decode text = .ok ts → decode (encode ts) = .ok ts := by
  constructor
  · intro ts
    rw [← Token.stamped_iff]
    constructor
    · exact decode_ok
    · rintro ⟨hstorable, hstamped⟩
      exact decode_encode hstorable hstamped
  · intro text ts h
    obtain ⟨hstorable, hstamped⟩ := decode_ok h
    exact decode_encode hstorable hstamped

/-- A file with other columns than those that are written, and a lexeme that ends in a tab. -/
theorem decode_encode_lenient : decode "\tx\t +010\r\n;   23".toList =
        .ok [⟨"x\t".toList, .identifier, 1⟩, ⟨";".toList, .semicolon, 1⟩] ∧
      decode (encode [⟨"x\t".toList, .identifier, 1⟩, ⟨";".toList, .semicolon, 1⟩]) =
        .ok [⟨"x\t".toList, .identifier, 1⟩, ⟨";".toList, .semicolon, 1⟩] := by
  have h : decode "\tx\t +010\r\n;   23".toList =
      .ok [⟨"x\t".toList, .identifier, 1⟩, ⟨";".toList, .semicolon, 1⟩] := rfl
  exact ⟨h, decode_encode_eq_ok_iff.2 _ _ h⟩

end BlockLang.TokenFile
