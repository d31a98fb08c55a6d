import BlockLang.Artifact.Path
import BlockLang.Proofs.Text.Bytes
import BlockLang.Proofs.Text.Pieces

/-!
# Names of artifacts

The path of an artifact is that of the source file with another name at its end. Unless it is none
that a file can have, the artifacts of a source file have different names, and different from its
own.
-/

namespace BlockLang.Path

open Text

/-! ## Folders and names -/

/-- A path in two parts: the folder, empty or with a slash at its end, and the name. -/
structure Splits (path folder name : Text) : Prop where
  eq : path = folder ++ name
  folder : folder = [] ∨ ∃ u, folder = u ++ ['/']
  name : '/' ∉ name

/-- A name that a file can have. -/
structure IsName (n : Text) : Prop where
  ne_nil : n ≠ []
  ne_dot : n ≠ ['.']
  ne_dots : n ≠ ['.', '.']

theorem exists_splits (path : Text) : ∃ f n, Splits path f n := by
  induction path with
  | nil => exact ⟨[], [], rfl, .inl rfl, by simp⟩
  | cons c path ih =>
      obtain ⟨f, n, rfl, hf, hn⟩ := ih
      rcases hf with rfl | ⟨u, rfl⟩
      · by_cases hc : c = '/'
        · exact ⟨['/'], n, by simp [hc], .inr ⟨[], rfl⟩, hn⟩
        · exact ⟨[], c :: n, rfl, .inl rfl, by simp [Ne.symm hc, hn]⟩
      · exact ⟨c :: u ++ ['/'], n, rfl, .inr ⟨c :: u, rfl⟩, hn⟩

/-- Another name in the same folder. -/
theorem Splits.beside {path f n m : Text} (h : Splits path f n) (hm : '/' ∉ m) :
    Splits (f ++ m) f m := ⟨rfl, h.folder, hm⟩

def outer (folder : Text) : List Text := (pieces '/' folder).dropLast

theorem Splits.pieces_eq {path f n : Text} (h : Splits path f n) :
    pieces '/' path = outer f ++ [n] := by
  obtain ⟨rfl, rfl | ⟨u, rfl⟩, hn⟩ := h
  · exact pieces_of_not_mem hn
  · rw [List.append_assoc, List.singleton_append, pieces_append_cons, pieces_of_not_mem hn, outer,
      pieces_append_cons]
    simp [pieces]

theorem Splits.join_eq {path f n : Text} (h : Splits path f n) :
    join '/' (outer f ++ [n]) = path := by
  rw [← h.pieces_eq, join_pieces]

theorem Splits.piecesBack_eq {path f n : Text} (h : Splits path f n) (hn : n ≠ [])
    (hd : n ≠ ['.']) : piecesBack path = n :: (outer f).reverse := by
  simp [piecesBack, h.pieces_eq, hn, hd]

/-! ## Extensions -/

theorem eq_of_splitName? {n s x : Text} (h : splitName? n = some (s, x)) :
    n = s ++ '.' :: x ∧ s ≠ [] := by
  simp only [splitName?, Option.bind_eq_bind, Option.bind_eq_some_iff] at h
  obtain ⟨⟨a, b⟩, hab, h⟩ := h
  obtain ⟨hn, -⟩ := splitFirst?_eq_some hab
  split at h
  · cases h
  · rename_i hb
    cases h
    refine ⟨?_, by simpa using hb⟩
    rw [← List.reverse_reverse n, hn]
    simp

theorem splitName?_append_dot {s : Text} (h : s ≠ []) : splitName? (s ++ ['.']) = some (s, []) := by
  simp [splitName?, splitFirst?, h]

def stem (name : Text) : Text := ((splitName? name).map (·.1)).getD name

theorem not_mem_stem {c : Char} {n : Text} (h : c ∉ n) : c ∉ stem n := by
  cases hs : splitName? n with
  | none => simpa [stem, hs] using h
  | some p =>
      rw [(eq_of_splitName? hs).1] at h
      have : c ∉ p.1 := fun hm => h (by simp [hm])
      simpa [stem, hs] using this

theorem Splits.extension?_eq {path f n : Text} (h : Splits path f n) (hn : IsName n) :
    extension? path = (splitName? n).map (·.2) := by
  simp [extension?, h.piecesBack_eq hn.ne_nil hn.ne_dot, hn.ne_dots]

theorem Splits.cutExtension_eq {path f n s x : Text} (h : Splits path f n) (hn : IsName n)
    (hs : splitName? n = some (s, x)) : cutExtension path = f ++ (s ++ ['.']) := by
  obtain ⟨rfl, -⟩ := eq_of_splitName? hs
  have hrev : path.reverse = x.reverse ++ '.' :: (f ++ s).reverse := by simp [h.eq]
  simp [cutExtension, h.extension?_eq hn, hs, hrev, ← byteLength_reverse x, dropBytes_append,
    dropBytes, Char.utf8Size]

theorem Splits.withExtension_of_cut {path f n e : Text} (h : Splits (cutExtension path) f n)
    (hn : IsName n) (he : '/' ∉ e) : withExtension path e = f ++ (stem n ++ '.' :: e) := by
  have hm : '/' ∉ stem n ++ '.' :: e := by simp [not_mem_stem h.name, he]
  simp only [withExtension, h.piecesBack_eq hn.ne_nil hn.ne_dot, if_neg hn.ne_dots]
  rw [← (h.beside hm).join_eq, List.reverse_cons, List.reverse_reverse]
  rfl

/-- The name of an artifact is the stem with its extension, except that a name can be left with two
dots when its extension is cut off. -/
theorem Splits.withExtension_eq {path f n e : Text} (h : Splits path f n) (hn : IsName n)
    (he : '/' ∉ e) : withExtension path e = f ++ (stem n ++ '.' :: e) ∨
      withExtension path e = f ++ ['.', '.'] := by
  cases hs : splitName? n with
  | none =>
      have hcut : cutExtension path = path := by simp [cutExtension, h.extension?_eq hn, hs]
      exact .inl ((hcut.symm ▸ h).withExtension_of_cut hn he)
  | some p =>
      obtain ⟨s, x⟩ := p
      obtain ⟨hsx, hne⟩ := eq_of_splitName? hs
      have hslash : '/' ∉ s ++ ['.'] := by
        have hname := h.name
        rw [hsx] at hname
        simpa using fun hm => hname (by simp [hm])
      have hcut : Splits (cutExtension path) f (s ++ ['.']) :=
        h.cutExtension_eq hn hs ▸ h.beside hslash
      by_cases hdot : s = ['.']
      · right
        subst hdot
        simp only [withExtension, hcut.piecesBack_eq (by simp) (by simp)]
        exact hcut.eq
      · left
        have hname : IsName (s ++ ['.']) := ⟨by simp, by simp [hne], by
          cases s <;> simp_all⟩
        rw [hcut.withExtension_of_cut hname he, stem, stem, splitName?_append_dot hne, hs]
        rfl

/-! ## Different names -/

/-- A name is not that of an artifact unless it has its extension. -/
theorem Splits.ne_artifact {path f n e : Text} (h : Splits path f n) (hn : IsName n)
    (he : extension? path ≠ some e) : n ≠ stem n ++ '.' :: e := by
  rw [h.extension?_eq hn] at he
  cases hs : splitName? n with
  | none =>
      intro heq
      have hlen := congrArg List.length heq
      simp [stem, hs] at hlen
  | some p =>
      obtain ⟨hsx, -⟩ := eq_of_splitName? hs
      intro heq
      have heq' : p.1 ++ '.' :: p.2 = p.1 ++ '.' :: e := by
        rw [← hsx]
        simpa [stem, hs] using heq
      exact he (by simpa [hs] using heq')

/-- A path that another extension leaves as it is has that extension. -/
theorem Splits.name_eq_of_withExtension_eq {path f n e : Text} (h : Splits path f n)
    (hn : IsName n) (he : '/' ∉ e) (hpath : withExtension path e = path) :
    n = stem n ++ '.' :: e := by
  rcases h.withExtension_eq hn he with heq | heq
  · rw [hpath, h.eq] at heq
    exact List.append_cancel_left heq
  · rw [hpath, h.eq] at heq
    exact absurd (List.append_cancel_left heq) hn.ne_dots

end BlockLang.Path
