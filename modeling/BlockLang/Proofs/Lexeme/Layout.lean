import BlockLang.Proofs.Lexeme.Rendering
import BlockLang.Proofs.Text.Chunks
import BlockLang.Proofs.Text.Pieces

/-!
# Layout

Blank characters only part the chunks of a source text, and line feeds are blank characters like the
others, but for the numbers of the lines that are counted by them.
-/

namespace BlockLang

namespace Lexeme

open Text (chunks isBlankText)

/-! ## Blank characters -/

namespace State

theorem after_of_isBlank {c : Char} (hc : isBlank c = true) (e : Event) :
    after e c = (start, [e]) := by
  rw [after, opening_of_isBlank hc]

/-- Every blank character closes what is in progress, just as the end of a line does. -/
theorem step_of_isBlank {c : Char} (hc : isBlank c = true) (s : State) :
    s.step c = (start, s.run []) := by
  have hword : c.isAlphanum = false := isAlphanum_of_isBlank hc
  have hdigit : c.isDigit = false := (Bool.or_eq_false_iff.mp hword).2
  have hterminator : isTerminator c = true := by rw [isTerminator, hc, Bool.true_or]
  have hpunctuation : ∀ d ∈ punctuation, c ≠ d := by
    rintro d hd rfl
    exact not_mem_punctuation_of_isBlank hc hd
  have hoperator : isOperatorChar c = false := by
    simp [isOperatorChar, not_mem_punctuation_of_isBlank hc]
  have hequal : c ≠ '=' := hpunctuation _ (by decide)
  have hgreater : c ≠ '>' := hpunctuation _ (by decide)
  cases s with
  | start => exact opening_of_isBlank hc
  | _ =>
      simp only [step, hword, hdigit, hterminator, hoperator, hequal, hgreater,
        after_of_isBlank hc, if_true, if_false, Bool.false_eq_true]
      rfl

theorem run_append_blank {c : Char} (hc : isBlank c = true) (s : State) (t u : Text) :
    s.run (t ++ c :: u) = s.run t ++ run .start u := by
  induction t generalizing s with
  | nil => rw [List.nil_append, run_cons, step_of_isBlank hc]
  | cons d t ih => rw [List.cons_append, run_cons, run_cons, ih, List.append_assoc]

end State

theorem eventsOfLine_append_blank {c : Char} (hc : isBlank c = true) (t u : Text) :
    eventsOfLine (t ++ c :: u) = eventsOfLine t ++ eventsOfLine u :=
  State.run_append_blank hc .start t u

theorem eventsOfLine_concat_blank {c : Char} (hc : isBlank c = true) (t : Text) :
    eventsOfLine (t ++ [c]) = eventsOfLine t := by
  rw [eventsOfLine_append_blank hc, show eventsOfLine [] = [] from rfl, List.append_nil]

/-- A line has the events of its chunks, each read on its own. -/
theorem eventsOfLine_eq_flatMap_chunks (t : Text) :
    eventsOfLine t = (chunks t).flatMap eventsOfLine :=
  Text.eq_flatMap_chunks rfl (fun t _ u hc => eventsOfLine_append_blank hc t u) t

theorem eventsOfLine_of_blank {b : Text} (hb : isBlankText b = true) : eventsOfLine b = [] := by
  rw [eventsOfLine_eq_scan, scan_of_blank hb]

end Lexeme

/-! ## Numbered lines -/

namespace Lexed

open Lexeme
open Text (chunks isBlankText pieces LastVisible)

/-- What is picked from the events of some lines, the first of which has the number `n`. -/
def onLines {α : Type} (pick : Nat → Event → Option α) (n : Nat) (ls : List Text) : List α :=
  ((ls.map eventsOfLine).zipIdx n).flatMap fun (es, i) => es.filterMap (pick i)

section

variable {α β : Type} {pick : Nat → Event → Option α}

theorem onLines_cons (n : Nat) (l : Text) (ls : List Text) :
    onLines pick n (l :: ls) = (eventsOfLine l).filterMap (pick n) ++ onLines pick (n + 1) ls :=
  rfl

theorem length_onLines_le (n : Nat) (ls : List Text) :
    (onLines pick n ls).length ≤ ls.flatten.length := by
  induction ls generalizing n with
  | nil => exact Nat.le_refl _
  | cons l ls ih =>
      have hline : ((eventsOfLine l).filterMap (pick n)).length ≤ l.length := by
        rw [eventsOfLine_eq_scan]
        exact Nat.le_trans (List.length_filterMap_le ..) (length_scan_le l)
      rw [onLines_cons, List.length_append, List.flatten_cons, List.length_append]
      exact Nat.add_le_add hline (ih (n + 1))

theorem onLines_of_blank (n : Nat) {bs : List Text} (h : ∀ b ∈ bs, isBlankText b = true) :
    onLines pick n bs = [] := by
  induction bs generalizing n with
  | nil => rfl
  | cons b bs ih =>
      rw [List.forall_mem_cons] at h
      rw [onLines_cons, eventsOfLine_of_blank h.1, ih (n + 1) h.2]
      rfl

theorem onLines_append_of_blank (n : Nat) (ls : List Text) {bs : List Text}
    (h : ∀ b ∈ bs, isBlankText b = true) : onLines pick n (ls ++ bs) = onLines pick n ls := by
  induction ls generalizing n with
  | nil => exact onLines_of_blank n h
  | cons l ls ih => rw [List.cons_append, onLines_cons, ih, onLines_cons]

theorem onLines_programLines (n : Nat) (source : Text) :
    onLines pick n (programLines source) = onLines pick n (Text.lines source) := by
  obtain ⟨bs, hbs, hblank⟩ : ∃ bs, Text.lines source = programLines source ++ bs ∧
      ∀ b ∈ bs, isBlankText b = true := Text.exists_dropBlankEnd_append _
  rw [hbs, onLines_append_of_blank n _ hblank]

/-- The lines of a text have the events of its pieces between line feeds. -/
theorem onLines_lines (n : Nat) (source : Text) :
    onLines pick n (Text.lines source) = onLines pick n (pieces '\n' source) := by
  obtain ⟨k, hk⟩ := Text.exists_map_pieces (eventsOfLine_concat_blank (c := '\r') rfl) source
  have hnil : ∀ b ∈ List.replicate k ([] : Text), isBlankText b = true := by
    intro b hb
    rw [List.eq_of_mem_replicate hb]
    rfl
  calc onLines pick n (Text.lines source)
      = onLines pick n (Text.lines source ++ List.replicate k []) :=
        (onLines_append_of_blank n _ hnil).symm
    _ = onLines pick n (pieces '\n' source) := by rw [onLines, onLines, hk]

theorem onLines_eq_flatMap_chunks (n : Nat) (ls : List Text) :
    onLines pick n ls = (ls.zipIdx n).flatMap fun (l, i) =>
      (chunks l).flatMap fun x => (eventsOfLine x).filterMap (pick i) := by
  induction ls generalizing n with
  | nil => rfl
  | cons l ls ih =>
      rw [onLines_cons, ih, eventsOfLine_eq_flatMap_chunks, List.filterMap_flatMap,
        List.zipIdx_cons, List.flatMap_cons]

theorem onLines_map_range' (f : Nat → Text) (n k : Nat) :
    onLines pick n ((List.range' n k).map f) =
      (List.range' n k).flatMap fun i => (eventsOfLine (f i)).filterMap (pick i) := by
  induction k generalizing n with
  | zero => rfl
  | succ k ih => rw [List.range'_succ, List.map_cons, onLines_cons, ih, List.flatMap_cons]

/-- Without the numbers of the lines, it is as if the lines were one. -/
theorem map_onLines {g : α → β} {h : Event → Option β} (hg : ∀ n e, (pick n e).map g = h e)
    (n : Nat) (ls : List Text) :
    (onLines pick n ls).map g = (ls.flatMap eventsOfLine).filterMap h := by
  induction ls generalizing n with
  | nil => rfl
  | cons l ls ih =>
      rw [onLines_cons, List.map_append, List.map_filterMap, ih, List.flatMap_cons,
        List.filterMap_append]
      simp only [hg]

theorem map_onLines_lines {g : α → β} {h : Event → Option β}
    (hg : ∀ n e, (pick n e).map g = h e) (n : Nat) (source : Text) :
    (onLines pick n (Text.lines source)).map g =
      ((chunks source).flatMap eventsOfLine).filterMap h := by
  rw [onLines_lines, map_onLines hg, Text.flatMap_pieces rfl (eventsOfLine_append_blank rfl),
    ← eventsOfLine_eq_flatMap_chunks]

theorem le_line_of_mem_onLines {line : α → Nat} (hline : ∀ n e a, pick n e = some a → line a = n)
    {n : Nat} {ls : List Text} {a : α} (h : a ∈ onLines pick n ls) : n ≤ line a := by
  obtain ⟨⟨es, i⟩, hes, ha⟩ := List.mem_flatMap.mp h
  obtain ⟨e, -, he⟩ := List.mem_filterMap.mp ha
  rw [hline i e a he]
  exact List.le_snd_of_mem_zipIdx hes

theorem pairwise_onLines {line : α → Nat} (hline : ∀ n e a, pick n e = some a → line a = n)
    (n : Nat) (ls : List Text) :
    (onLines pick n ls).Pairwise fun a b => line a ≤ line b := by
  induction ls generalizing n with
  | nil => exact .nil
  | cons l ls ih =>
      have hhere : ∀ a ∈ (eventsOfLine l).filterMap (pick n), line a = n := by
        intro a ha
        obtain ⟨e, -, he⟩ := List.mem_filterMap.mp ha
        exact hline n e a he
      rw [onLines_cons]
      refine List.pairwise_append.mpr ⟨?_, ih (n + 1), fun a ha b hb => ?_⟩
      · exact List.pairwise_of_forall_mem_list fun a ha b hb =>
          Nat.le_of_eq ((hhere a ha).trans (hhere b hb).symm)
      · rw [hhere a ha]
        exact Nat.le_of_succ_le (le_line_of_mem_onLines hline hb)

theorem flatMap_zipIdx_eq_flatMap_range' {f : α × Nat → List β} {g : Nat → List β} {n : Nat}
    {ls : List α} (h : ∀ l i, (l, i) ∈ ls.zipIdx n → f (l, i) = g i) :
    (ls.zipIdx n).flatMap f = (List.range' n ls.length).flatMap g := by
  calc (ls.zipIdx n).flatMap f
      = (ls.zipIdx n).flatMap (fun p => g p.2) := List.flatMap_congr fun p hp => h p.1 p.2 hp
    _ = ((ls.zipIdx n).map Prod.snd).flatMap g := (List.flatMap_map ..).symm
    _ = (List.range' n ls.length).flatMap g := by rw [List.zipIdx_map_snd]

end

/-! ## Streams -/

theorem significant_tokensFrom (n : Nat) (ls : List Text) :
    Token.significant (tokensFrom n ls) = onLines Event.token? n ls := by
  induction ls generalizing n with
  | nil => rfl
  | cons l ls ih =>
      rw [tokensFrom, Token.significant_append, significant_lineTokens, ih, onLines_cons]

theorem significant_eq_onLines (source : Text) :
    (ofSource source).significant = onLines Event.token? 1 (Text.lines source) := by
  rw [significant, tokens_ofSource, significant_tokensFrom, onLines_programLines]

/-- A text has no more tokens than characters. -/
theorem length_significant_le (source : Text) :
    (ofSource source).significant.length ≤ source.length := by
  rw [significant_eq_onLines]
  exact Nat.le_trans (length_onLines_le ..) (Text.length_flatten_lines_le source)

theorem errors_eq_onLines (source : Text) :
    (ofSource source).errors = onLines Event.diagnostic? 1 (Text.lines source) := by
  rw [← onLines_programLines, onLines, List.zipIdx_map, List.flatMap_map]
  rfl

theorem line_of_token? (n : Nat) (e : Event) (t : Token) (h : e.token? n = some t) :
    t.line = n := by
  cases e <;> cases h
  rfl

theorem line_of_diagnostic? (n : Nat) (e : Event) (d : Diagnostic LexicalFault)
    (h : e.diagnostic? n = some d) : d.line = n := by
  cases e <;> cases h
  rfl

/-- The last line with a visible character is the last one of the program. -/
theorem lastVisible_programLines (source : Text) :
    LastVisible (pieces '\n' source) (programLines source).length := by
  have hr : ∀ l, isBlankText (l ++ ['\r']) = isBlankText l := by
    intro l
    rw [Text.isBlankText_append, show isBlankText ['\r'] = true from rfl, Bool.and_true]
  obtain ⟨k, hk⟩ := Text.exists_map_pieces hr source
  have hlength := Text.length_dropBlankEnd_congr hk
  rw [Text.dropBlankEnd_append_of_blank _ (by simp [isBlankText])] at hlength
  rw [programLines, ← hlength]
  exact Text.lastVisible_dropBlankEnd _

theorem filter_line_of_mem_zipIdx {n i : Nat} {l : Text} {ls : List Text}
    (h : (l, i) ∈ ls.zipIdx n) : (Token.significant (tokensFrom n ls)).filter (·.line = i) =
      (eventsOfLine l).filterMap (Event.token? i) := by
  obtain ⟨hi, hl⟩ := List.mem_zipIdx_iff_le_and_getElem?_sub.mp h
  obtain ⟨k, rfl⟩ := Nat.exists_eq_add_of_le hi
  rw [Nat.add_sub_cancel_left] at hl
  rw [filter_line_tokensFrom, hl]
  rfl

/-- The significant tokens stand line by line. -/
theorem significant_eq_flatMap_filter_line (n : Nat) (ls : List Text) :
    Token.significant (tokensFrom n ls) = (List.range' n ls.length).flatMap fun i =>
      (Token.significant (tokensFrom n ls)).filter (·.line = i) := by
  have hlines : (ls.zipIdx n).flatMap (fun (l, i) => (eventsOfLine l).filterMap (Event.token? i)) =
      (List.range' n ls.length).flatMap fun i =>
        (Token.significant (tokensFrom n ls)).filter (·.line = i) :=
    flatMap_zipIdx_eq_flatMap_range' fun l i hl => (filter_line_of_mem_zipIdx hl).symm
  rw [← hlines, significant_tokensFrom, onLines, List.zipIdx_map, List.flatMap_map]
  rfl

/-- The significant tokens of a line and its end marker follow one another. -/
theorem tokensFrom_eq_flatMap_filter_line (n : Nat) (ls : List Text) :
    tokensFrom n ls = (List.range' n ls.length).flatMap (fun i =>
      (Token.significant (tokensFrom n ls)).filter (·.line = i) ++ [Token.endOfLine i]) ++
        [Token.endOfFile (n + ls.length)] := by
  have hlines : (ls.zipIdx n).flatMap (fun (l, i) => lineTokens i l) =
      (List.range' n ls.length).flatMap fun i =>
        (Token.significant (tokensFrom n ls)).filter (·.line = i) ++ [Token.endOfLine i] := by
    refine flatMap_zipIdx_eq_flatMap_range' fun l i hl => ?_
    rw [filter_line_of_mem_zipIdx hl]
    rfl
  rw [← hlines, flatMap_lineTokens]

theorem lexeme_kind_token? (n : Nat) (e : Event) :
    (e.token? n).map (fun t => (t.lexeme, t.kind)) =
      (e.token? 0).map fun t => (t.lexeme, t.kind) := by
  cases e <;> rfl

theorem fault_diagnostic? (n : Nat) (e : Event) :
    (e.diagnostic? n).map (·.fault) = (e.diagnostic? 0).map (·.fault) := by
  cases e <;> rfl

/-- Source texts with the same chunks have the same significant tokens and faults, but for the lines.
Cut at line feeds, each line gives the tokens and faults that its chunks have on their own, with its
number. Up to the last line that is not blank, the tokens of each line are followed by an end marker.
-/
theorem layout_only_numbers_lines :
    (∀ s t, chunks s = chunks t →
      (ofSource s).significant.map (fun k => (k.lexeme, k.kind)) =
          (ofSource t).significant.map (fun k => (k.lexeme, k.kind)) ∧
        (ofSource s).errors.map (·.fault) = (ofSource t).errors.map (·.fault)) ∧
      ∀ s,
        (ofSource s).significant = ((pieces '\n' s).zipIdx 1).flatMap (fun (l, n) =>
          (chunks l).flatMap fun x => (eventsOfLine x).filterMap (Event.token? n)) ∧
        (ofSource s).errors = ((pieces '\n' s).zipIdx 1).flatMap (fun (l, n) =>
          (chunks l).flatMap fun x => (eventsOfLine x).filterMap (Event.diagnostic? n)) ∧
        (ofSource s).significant.Pairwise (fun k j => k.line ≤ j.line) ∧
        (ofSource s).errors.Pairwise (fun d e => d.line ≤ e.line) ∧
        ∃ last, LastVisible (pieces '\n' s) last ∧
          (ofSource s).tokens = (List.range' 1 last).flatMap (fun n =>
            (ofSource s).significant.filter (fun k => k.line = n) ++ [Token.endOfLine n]) ++
              [Token.endOfFile (last + 1)] := by
  refine ⟨fun s t h => ⟨?_, ?_⟩, fun s => ⟨?_, ?_, ?_, ?_, ?_⟩⟩
  · simp only [significant_eq_onLines, map_onLines_lines lexeme_kind_token?, h]
  · simp only [errors_eq_onLines, map_onLines_lines fault_diagnostic?, h]
  · rw [significant_eq_onLines, onLines_lines, onLines_eq_flatMap_chunks]
  · rw [errors_eq_onLines, onLines_lines, onLines_eq_flatMap_chunks]
  · rw [significant_eq_onLines]
    exact pairwise_onLines line_of_token? 1 _
  · rw [errors_eq_onLines]
    exact pairwise_onLines line_of_diagnostic? 1 _
  · refine ⟨_, lastVisible_programLines s, ?_⟩
    rw [significant, tokens_ofSource, Nat.add_comm _ 1]
    exact tokensFrom_eq_flatMap_filter_line 1 _

theorem layout_only_numbers_lines_reindented :
    chunks "if a\r\n\t$b:=1;\r\n \n".toList = chunks " if\n\na $b:=1;".toList ∧
      (ofSource "if a\r\n\t$b:=1;\r\n \n".toList).significant.map (fun k => (k.lexeme, k.kind)) =
        (ofSource " if\n\na $b:=1;".toList).significant.map (fun k => (k.lexeme, k.kind)) ∧
      (ofSource "if a\r\n\t$b:=1;\r\n \n".toList).errors.map (·.fault) =
        (ofSource " if\n\na $b:=1;".toList).errors.map (·.fault) := by
  have hchunks : chunks "if a\r\n\t$b:=1;\r\n \n".toList = chunks " if\n\na $b:=1;".toList := rfl
  exact ⟨hchunks, layout_only_numbers_lines.1 _ _ hchunks⟩

end Lexed

end BlockLang
