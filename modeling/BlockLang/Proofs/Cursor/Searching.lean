import BlockLang.Cursor
import BlockLang.Proofs.Text.Trimming

/-!
# Runs of searches

A cursor on which one text after another is sought moves forward through its source. A search looks
at what is left of the current line and then at the lines that follow, and goes to the first of them
that starts with the text. What it passes is given up; if it finds nothing, no more than the last
line is left.
-/

namespace BlockLang

open Text (lines trimStart)

/-- The text of a line. Line 0 is in front of the source and holds nothing. -/
def Text.lineAt (source : Text) (n : Nat) : Text := ([] :: lines source).getD n []

namespace Cursor

variable {source x u v : Text} {c d : Cursor} {n m : Nat}

/-! ## Runs -/

/-- The cursor that a search leaves, be it with success or without. -/
def next (c : Cursor) (x : Text) : Cursor :=
  match c.seek x with
  | .ok d => d
  | .error _ => c.settle x

/-- The cursor that is left when some texts were sought in turn. -/
def after (c : Cursor) (xs : List Text) : Cursor := xs.foldl next c

theorem seekAll_cons (c : Cursor) (x : Text) (xs : List Text) :
    c.seekAll (x :: xs) = (c.seek x).map line :: (c.next x).seekAll xs := by
  rw [seekAll, next]
  cases c.seek x <;> rfl

theorem seekAll_concat (c : Cursor) (xs : List Text) (x : Text) :
    c.seekAll (xs ++ [x]) = c.seekAll xs ++ [((c.after xs).seek x).map line] := by
  induction xs generalizing c with
  | nil => exact seekAll_cons c x []
  | cons y ys ih =>
      rw [List.cons_append, seekAll_cons, ih, seekAll_cons]
      rfl

/-! ## What a search looks at -/

/-- A cursor that is on its way through a source. -/
structure Tracks (source : Text) (c : Cursor) : Prop where
  pending : c.pending = (lines source).drop c.lineCount
  lineCount_le : c.lineCount ≤ (lines source).length
  rest : c.rest <:+ source.lineAt c.lineCount

/-- What a search from `c` looks at on each line: what is left of the current one, and the text of
the later ones without the blank characters in front. -/
inductive Offers (source : Text) (c : Cursor) : Nat → Text → Prop where
  | current : Offers source c c.lineCount c.rest
  | later {n : Nat} {l : Text} (h : c.lineCount < n) (hl : (lines source)[n - 1]? = some l) :
      Offers source c n (trimStart l)

namespace Offers

theorem lineCount_le (h : Offers source c n u) : c.lineCount ≤ n := by
  cases h with
  | current => exact Nat.le_refl _
  | later h _ => exact Nat.le_of_lt h

theorem le_length (hc : c.Tracks source) (h : Offers source c n u) :
    n ≤ (lines source).length := by
  cases h with
  | current => exact hc.lineCount_le
  | later h hl =>
      have := (List.getElem?_eq_some_iff.mp hl).1
      omega

theorem unique (h : Offers source c n u) (h' : Offers source c n v) : u = v := by
  cases h with
  | current =>
      cases h' with
      | current => rfl
      | later h' _ => exact absurd h' (Nat.lt_irrefl _)
  | later h hl =>
      cases h' with
      | current => exact absurd h (Nat.lt_irrefl _)
      | later _ hl' => rw [Option.some.inj (hl.symm.trans hl')]

end Offers

/-- The next line is what a cursor has at the front of its pending lines. -/
theorem Tracks.tail {l rest : Text} {ls : List Text} (h : Tracks source ⟨l :: ls, rest, n⟩) :
    (lines source)[n]? = some l ∧ Tracks source ⟨ls, trimStart l, n + 1⟩ := by
  have hpending : l :: ls = (lines source).drop n := h.pending
  have hl : (lines source)[n]? = some l := by
    rw [← List.head?_drop, ← hpending]
    rfl
  refine ⟨hl, ?_, (List.getElem?_eq_some_iff.mp hl).1, ?_⟩
  · change ls = (lines source).drop (n + 1)
    rw [← List.tail_drop, ← hpending]
    rfl
  · have hline : source.lineAt (n + 1) = l := by
      simp [Text.lineAt, hl]
    rw [hline]
    exact List.dropWhile_suffix _

theorem offers_cons_iff {l rest : Text} {ls : List Text} (hl : (lines source)[n]? = some l) :
    Offers source ⟨l :: ls, rest, n⟩ m u ↔
      m = n ∧ u = rest ∨ Offers source ⟨ls, trimStart l, n + 1⟩ m u := by
  constructor
  · intro h
    cases h with
    | current => exact .inl ⟨rfl, rfl⟩
    | later hlt hm =>
        have hlt : n < m := hlt
        rcases Nat.lt_or_eq_of_le hlt with hlt | rfl
        · exact .inr (.later hlt hm)
        · obtain rfl := Option.some.inj (hl.symm.trans hm)
          exact .inr .current
  · rintro (⟨rfl, rfl⟩ | h)
    · exact .current
    · cases h with
      | current => exact .later (Nat.lt_succ_self n) hl
      | later hlt hm => exact .later (Nat.lt_of_succ_lt hlt) hm

/-! ## Where a search ends -/

/-- On its way from `c`, the search for `x` passes no line that starts with `x` before it comes to
`d`. -/
structure Reaches (source x : Text) (c d : Cursor) : Prop where
  tracks : d.Tracks source
  offered : Offers source c d.lineCount d.rest
  first : ∀ n u, Offers source c n u → n < d.lineCount → ¬ x <+: u

theorem Reaches.refl (h : c.Tracks source) (x : Text) : Reaches source x c c where
  tracks := h
  offered := .current
  first _ _ ho hlt := absurd ho.lineCount_le (Nat.not_le_of_lt hlt)

theorem Tracks.reaches_settle (h : c.Tracks source) (x : Text) :
    Reaches source x c (c.settle x) := by
  obtain ⟨pending, rest, n⟩ := c
  induction pending generalizing rest n with
  | nil => exact .refl h x
  | cons l ls ih =>
      by_cases hx : x.isPrefixOf rest = true
      · rw [settle_of_starts hx]
        exact .refl h x
      · -- the current line is passed, and the search is one from the next line
        obtain ⟨hl, htail⟩ := h.tail
        have hnext := ih (trimStart l) (n + 1) htail
        rw [settle_next hx]
        refine ⟨hnext.tracks, (offers_cons_iff hl).mpr (.inr hnext.offered), ?_⟩
        intro m u ho hlt
        rcases (offers_cons_iff hl).mp ho with ⟨-, rfl⟩ | ho
        · exact mt List.isPrefixOf_iff_prefix.mpr hx
        · exact hnext.first m u ho hlt

theorem Tracks.starts_or_last (h : c.Tracks source) (x : Text) :
    x <+: (c.settle x).rest ∨ (c.settle x).lineCount = (lines source).length := by
  have hend := (h.reaches_settle x).tracks
  rcases settleFrom_starts_or_done x c.pending c.rest c.lineCount with hx | hdone
  · exact .inl (List.isPrefixOf_iff_prefix.mp hx)
  · exact .inr (Nat.le_antisymm hend.lineCount_le
      (List.drop_eq_nil_iff.mp (hend.pending.symm.trans hdone)))

theorem seek_of_starts (h : x <+: (c.settle x).rest) : c.seek x =
    .ok { c.settle x with rest := trimStart ((c.settle x).rest.drop x.length) } :=
  if_pos (List.isPrefixOf_iff_prefix.mpr h)

theorem seek_of_not_starts (h : ¬ x <+: (c.settle x).rest) :
    c.seek x = .error ⟨(c.settle x).line, x, (c.settle x).rest⟩ :=
  if_neg (mt List.isPrefixOf_iff_prefix.mp h)

theorem next_of_starts (h : x <+: (c.settle x).rest) : c.next x =
    { c.settle x with rest := trimStart ((c.settle x).rest.drop x.length) } := by
  rw [next, seek_of_starts h]

theorem next_of_not_starts (h : ¬ x <+: (c.settle x).rest) : c.next x = c.settle x := by
  rw [next, seek_of_not_starts h]

theorem lineCount_next (c : Cursor) (x : Text) : (c.next x).lineCount = (c.settle x).lineCount := by
  by_cases h : x <+: (c.settle x).rest
  · rw [next_of_starts h]
  · rw [next_of_not_starts h]

theorem rest_next_suffix (c : Cursor) (x : Text) : (c.next x).rest <:+ (c.settle x).rest := by
  by_cases h : x <+: (c.settle x).rest
  · rw [next_of_starts h]
    exact (List.dropWhile_suffix _).trans (List.drop_suffix _ _)
  · simp [next_of_not_starts h]

/-- A search succeeds if and only if it looks at a text that starts with what is sought. -/
theorem Tracks.exists_seek_iff (h : c.Tracks source) (x : Text) :
    (∃ d, c.seek x = .ok d) ↔ ∃ n u, Offers source c n u ∧ x <+: u := by
  have hend := h.reaches_settle x
  constructor
  · rintro ⟨d, hd⟩
    refine ⟨_, _, hend.offered, Decidable.byContradiction fun hx => ?_⟩
    rw [seek_of_not_starts hx] at hd
    cases hd
  · rintro ⟨n, u, ho, hu⟩
    refine ⟨_, seek_of_starts ((h.starts_or_last x).elim id fun hlast => ?_)⟩
    have hn : n = (c.settle x).lineCount := by
      refine Nat.le_antisymm (hlast ▸ ho.le_length h) (Nat.le_of_not_lt fun hlt => ?_)
      exact hend.first n u ho hlt hu
    subst hn
    rwa [hend.offered.unique ho]

/-! ## Runs through a source -/

theorem tracks_ofSource (source : Text) : (ofSource source).Tracks source :=
  ⟨rfl, Nat.zero_le _, List.suffix_refl []⟩

theorem Tracks.next (h : c.Tracks source) (x : Text) : (c.next x).Tracks source := by
  have hend := (h.reaches_settle x).tracks
  by_cases hx : x <+: (c.settle x).rest
  · have hrest := rest_next_suffix c x
    rw [next_of_starts hx] at hrest ⊢
    exact ⟨hend.pending, hend.lineCount_le, hrest.trans hend.rest⟩
  · rwa [next_of_not_starts hx]

theorem Tracks.after (h : c.Tracks source) (xs : List Text) : (c.after xs).Tracks source := by
  induction xs generalizing c with
  | nil => exact h
  | cons x xs ih => exact ih (h.next x)

/-- A search leaves the current line, or it leaves an end of what was on it. -/
theorem Tracks.next_forward (h : c.Tracks source) (x : Text) :
    c.lineCount < (c.next x).lineCount ∨
      c.lineCount = (c.next x).lineCount ∧ (c.next x).rest <:+ c.rest := by
  have hend := h.reaches_settle x
  rw [lineCount_next]
  rcases Nat.lt_or_eq_of_le hend.offered.lineCount_le with hlt | heq
  · exact .inl hlt
  · refine .inr ⟨heq, ?_⟩
    have ho := hend.offered
    rw [← heq] at ho
    rw [Offers.current.unique ho]
    exact rest_next_suffix c x

theorem Tracks.after_last (h : c.Tracks source) (hlast : c.lineCount = (lines source).length)
    (xs : List Text) : (c.after xs).lineCount = (lines source).length ∧
      (c.after xs).rest <:+ c.rest := by
  induction xs generalizing c with
  | nil => exact ⟨hlast, List.suffix_refl _⟩
  | cons x xs ih =>
      rcases h.next_forward x with hlt | ⟨heq, hrest⟩
      · have := (h.next x).lineCount_le
        omega
      · obtain ⟨hcount, hafter⟩ := ih (h.next x) (heq.symm.trans hlast)
        exact ⟨hcount, hafter.trans hrest⟩

theorem Tracks.exists_seek_last_iff (h : c.Tracks source)
    (hlast : c.lineCount = (lines source).length) (x : Text) :
    (∃ d, c.seek x = .ok d) ↔ x <+: c.rest := by
  rw [h.exists_seek_iff]
  constructor
  · rintro ⟨n, u, ho, hu⟩
    obtain rfl : n = c.lineCount :=
      Nat.le_antisymm (hlast ▸ ho.le_length h) ho.lineCount_le
    rwa [Offers.current.unique ho]
  · exact fun hx => ⟨_, _, .current, hx⟩

/-! ## What a search comes to -/

/-- The search for `x` from `c` has found the first place there is, and `d` is right behind it. -/
structure Finds (source x : Text) (c d : Cursor) : Prop where
  place : ∃ u, Offers source c d.lineCount u ∧ x <+: u ∧ d.rest = trimStart (u.drop x.length)
  first : ∀ n u, Offers source c n u → n < d.lineCount → ¬ x <+: u

/-- The search for `x` from `c` has found no place. It is told what is on the last line, `d` stands
there, and nothing else will be found any more. -/
structure Misses (source x : Text) (c d : Cursor) (m : Mismatch) : Prop where
  nowhere : ∀ n u, Offers source c n u → ¬ x <+: u
  lineCount : d.lineCount = (lines source).length
  last : Offers source c d.lineCount d.rest
  told : m = ⟨max 1 (lines source).length, x, d.rest⟩
  later : ∀ ys y, (d.after ys).lineCount = (lines source).length ∧ (d.after ys).rest <:+ d.rest ∧
    ((∃ e, (d.after ys).seek y = .ok e) ↔ y <+: (d.after ys).rest)

theorem Tracks.finds (h : c.Tracks source) (hd : c.seek x = .ok d) : Finds source x c d := by
  have hend := h.reaches_settle x
  have hx : x <+: (c.settle x).rest := Decidable.byContradiction fun hx => by
    rw [seek_of_not_starts hx] at hd
    cases hd
  rw [seek_of_starts hx] at hd
  cases hd
  exact ⟨⟨_, hend.offered, hx, rfl⟩, hend.first⟩

theorem Tracks.misses {m : Mismatch} (h : c.Tracks source) (hm : c.seek x = .error m) :
    Misses source x c (c.next x) m := by
  have hend := h.reaches_settle x
  have hx : ¬ x <+: (c.settle x).rest := fun hx => by
    rw [seek_of_starts hx] at hm
    cases hm
  have hlast := (h.starts_or_last x).resolve_left hx
  rw [next_of_not_starts hx]
  refine ⟨fun n u ho hu => ?_, hlast, hend.offered, ?_, fun ys y => ?_⟩
  · obtain ⟨d, hd⟩ := (h.exists_seek_iff x).mpr ⟨n, u, ho, hu⟩
    rw [hd] at hm
    cases hm
  · rw [seek_of_not_starts hx, line, hlast] at hm
    exact (Except.error.inj hm).symm
  · obtain ⟨hcount, hrest⟩ := hend.tracks.after_last hlast ys
    exact ⟨hcount, hrest, (hend.tracks.after ys).exists_seek_last_iff hcount y⟩

/-! ## What is matched -/

end Cursor

/-- A stretch of a line, from one column up to another. -/
structure Stretch where
  line : Nat
  start : Nat
  stop : Nat
  deriving DecidableEq, Repr

namespace Stretch

def text (source : Text) (s : Stretch) : Text := ((source.lineAt s.line).take s.stop).drop s.start

/-- The text behind a stretch on its line. -/
def behind (source : Text) (s : Stretch) : Text := (source.lineAt s.line).drop s.stop

/-- One stretch ends before the other begins. -/
def Before (s t : Stretch) : Prop := s.line < t.line ∨ s.line = t.line ∧ s.stop ≤ t.start

end Stretch

namespace Cursor

variable {source x : Text} {c d : Cursor} {s t : Stretch}

/-- The column where what is left of the current line begins. -/
def column (source : Text) (c : Cursor) : Nat :=
  (source.lineAt c.lineCount).length - c.rest.length

/-- The stretch that a search matches. -/
def stretch? (source : Text) (c : Cursor) (x : Text) : Option Stretch :=
  match c.seek x with
  | .ok _ =>
    let column := (c.settle x).column source
    some ⟨(c.settle x).lineCount, column, column + x.length⟩
  | .error _ => none

/-- The stretches that are matched when some texts are sought in turn. -/
def stretches (source : Text) : Cursor → List Text → List Stretch
  | _, [] => []
  | c, x :: xs => (c.stretch? source x).toList ++ stretches source (c.next x) xs

theorem stretch?_eq_some (h : c.stretch? source x = some s) : x <+: (c.settle x).rest ∧
    s = ⟨(c.settle x).lineCount, (c.settle x).column source,
      (c.settle x).column source + x.length⟩ := by
  by_cases hx : x <+: (c.settle x).rest
  · rw [stretch?, seek_of_starts hx] at h
    exact ⟨hx, (Option.some.inj h).symm⟩
  · rw [stretch?, seek_of_not_starts hx] at h
    cases h

theorem Tracks.drop_column (h : c.Tracks source) :
    (source.lineAt c.lineCount).drop (c.column source) = c.rest := by
  obtain ⟨u, hu⟩ := h.rest
  have hcolumn : c.column source = u.length := by
    rw [column, ← hu, List.length_append, Nat.add_sub_cancel]
  rw [hcolumn, ← hu, List.drop_left]

/-- A stretch that is matched holds what was sought, and the search goes on behind it. -/
theorem Tracks.text_of_stretch? (h : c.Tracks source) (hs : c.stretch? source x = some s) :
    s.text source = x ∧ (c.next x).lineCount = s.line ∧
      (c.next x).rest = trimStart (s.behind source) := by
  obtain ⟨hx, rfl⟩ := stretch?_eq_some hs
  have hdrop := (h.reaches_settle x).tracks.drop_column
  rw [next_of_starts hx]
  refine ⟨?_, rfl, ?_⟩
  · rw [Stretch.text, List.drop_take, hdrop, Nat.add_sub_cancel_left]
    exact (List.prefix_iff_eq_take.mp hx).symm
  · rw [Stretch.behind, ← List.drop_drop, hdrop]

/-! ## No part is matched twice -/

/-- The stretch lies in what a cursor has not passed. -/
def Ahead (source : Text) (c : Cursor) (s : Stretch) : Prop :=
  c.lineCount < s.line ∨ c.lineCount = s.line ∧ c.column source ≤ s.start

theorem column_le_of_suffix (source : Text) (hcount : c.lineCount = d.lineCount)
    (h : d.rest <:+ c.rest) : c.column source ≤ d.column source := by
  rw [column, column, hcount]
  exact Nat.sub_le_sub_left h.length_le _

theorem Tracks.ahead_of_next (h : c.Tracks source) (ht : (c.next x).Ahead source t) :
    c.Ahead source t := by
  unfold Ahead at ht ⊢
  rcases h.next_forward x with hlt | ⟨heq, hrest⟩
  · omega
  · have := column_le_of_suffix source heq hrest
    omega

theorem Tracks.ahead_of_stretch? (h : c.Tracks source) (hs : c.stretch? source x = some s) :
    c.Ahead source s := by
  obtain ⟨-, rfl⟩ := stretch?_eq_some hs
  have ho := (h.reaches_settle x).offered
  rcases Nat.lt_or_eq_of_le ho.lineCount_le with hlt | heq
  · exact .inl hlt
  · rw [← heq] at ho
    exact .inr ⟨heq, column_le_of_suffix source heq (by simp [Offers.current.unique ho])⟩

/-- What is matched is given up, so that no later match reaches into it. -/
theorem Tracks.before_of_ahead_next (h : c.Tracks source) (hs : c.stretch? source x = some s)
    (ht : (c.next x).Ahead source t) : s.Before t := by
  obtain ⟨hx, rfl⟩ := stretch?_eq_some hs
  have hend := (h.reaches_settle x).tracks
  have hcolumn : (c.settle x).column source + x.length ≤ (c.next x).column source := by
    have hrest : (c.next x).rest.length ≤ (c.settle x).rest.length - x.length := by
      rw [next_of_starts hx, ← List.length_drop]
      exact (List.dropWhile_suffix _).length_le
    have hline := hend.rest.length_le
    have hlen := hx.length_le
    simp only [column, lineCount_next]
    omega
  unfold Ahead at ht
  rw [lineCount_next] at ht
  unfold Stretch.Before
  dsimp only
  omega

theorem Tracks.ahead_of_mem_stretches (h : c.Tracks source) (xs : List Text) :
    ∀ s ∈ c.stretches source xs, c.Ahead source s := by
  induction xs generalizing c with
  | nil => simp [stretches]
  | cons x xs ih =>
      intro s hs
      rcases List.mem_append.mp hs with hs | hs
      · exact h.ahead_of_stretch? (Option.mem_toList.mp hs)
      · exact h.ahead_of_next (ih (h.next x) s hs)

theorem Tracks.pairwise_stretches (h : c.Tracks source) (xs : List Text) :
    (c.stretches source xs).Pairwise Stretch.Before := by
  induction xs generalizing c with
  | nil => exact .nil
  | cons x xs ih =>
      refine List.pairwise_append.mpr ⟨?_, ih (h.next x), fun s hs t ht => ?_⟩
      · cases c.stretch? source x <;> simp
      · exact h.before_of_ahead_next (Option.mem_toList.mp hs)
          ((h.next x).ahead_of_mem_stretches xs t ht)

/-! ## The meaning of a run -/

/-- The lines of a cursor are those of its source, and searching does not lead back. -/
theorem Tracks.line_bounds (h : c.Tracks source) (x : Text) : 1 ≤ c.line ∧
    c.line ≤ (c.next x).line ∧ (c.next x).line ≤ max 1 (lines source).length := by
  have hle := (h.next x).lineCount_le
  have hforward : c.lineCount ≤ (c.next x).lineCount := by
    rcases h.next_forward x with hlt | ⟨heq, -⟩
    · exact Nat.le_of_lt hlt
    · exact Nat.le_of_eq heq
  simp only [line]
  omega

/-- Whatever was sought before, with or without success, a search succeeds exactly if something that
is left starts with the text, on the current line or on a later one. It then goes behind the first
such place. Otherwise it tells of the last line and stays there for good. The cursor never goes back
to an earlier line, and no two matches of a run share a part of the source. -/
theorem seek_finds_first (source : Text) (xs : List Text) (x : Text) :
    let c := (ofSource source).after xs
    (ofSource source).seekAll (xs ++ [x]) =
      (ofSource source).seekAll xs ++ [(c.seek x).map line] ∧
    ((∃ d, c.seek x = .ok d) ↔ ∃ n u, Offers source c n u ∧ x <+: u) ∧
    (∀ d, c.seek x = .ok d → Finds source x c d ∧ ∃ s, c.stretch? source x = some s ∧
      s.text source = x ∧ d.lineCount = s.line ∧ d.rest = trimStart (s.behind source)) ∧
    (∀ m, c.seek x = .error m → Misses source x c (c.next x) m) ∧
    (1 ≤ c.line ∧ c.line ≤ (c.next x).line ∧ (c.next x).line ≤ max 1 (lines source).length) ∧
    ((ofSource source).stretches source xs).Pairwise Stretch.Before := by
  intro c
  have hc : c.Tracks source := (tracks_ofSource source).after xs
  refine ⟨seekAll_concat _ xs x, hc.exists_seek_iff x, fun d hd => ⟨hc.finds hd, ?_⟩,
    fun m hm => hc.misses hm, hc.line_bounds x, (tracks_ofSource source).pairwise_stretches xs⟩
  have hs : ∃ s, c.stretch? source x = some s := by
    rw [stretch?, hd]
    exact ⟨_, rfl⟩
  obtain ⟨s, hs⟩ := hs
  have hnext : c.next x = d := by rw [next, hd]
  exact ⟨s, hs, hnext ▸ hc.text_of_stretch? hs⟩

/-- A word that was matched is not found again, and a search in vain leaves only the last line. -/
theorem seek_finds_first_missed :
    let source := "ab\n\n  cd ab\r\n".toList
    let c := (ofSource source).after ["ab".toList, "zz".toList]
    c.seek "ab".toList = .error ⟨3, "ab".toList, "cd ab".toList⟩ ∧
    (c.after ["cd".toList]).seek "ab".toList = .ok ⟨[], [], 3⟩ ∧
    Misses source "ab".toList c (c.next "ab".toList) ⟨3, "ab".toList, "cd ab".toList⟩ ∧
    ((ofSource source).stretches source ["ab".toList, "zz".toList, "cd".toList]).Pairwise
      Stretch.Before := by
  intro source c
  have hm : c.seek "ab".toList = .error ⟨3, "ab".toList, "cd ab".toList⟩ := rfl
  obtain ⟨-, -, -, hmisses, -⟩ := seek_finds_first source ["ab".toList, "zz".toList] "ab".toList
  obtain ⟨-, -, -, -, -, hbefore⟩ :=
    seek_finds_first source ["ab".toList, "zz".toList, "cd".toList] []
  exact ⟨hm, rfl, hmisses _ hm, hbefore⟩

end Cursor

end BlockLang
