import BlockLang.Proofs.Storage.Locations

/-!
# What writing leaves alone

The directories of a store decide to which locations its paths lead, and writing changes none of
them. However often files are written at some paths, nothing changes but what is at the locations to
which these paths led from the beginning.
-/

namespace BlockLang.Store

open BlockLang.Path (Splits IsName)

variable {s t u : Store} {path : Text} {paths : List Text} {k l : Location} {r : Route} {x : Text}

/-! ## Locations -/

theorem SameDirectories.refl (s : Store) : s.SameDirectories s := ⟨rfl, fun _ => rfl⟩

theorem SameDirectories.symm (h : s.SameDirectories t) : t.SameDirectories s :=
  ⟨h.here.symm, fun l => (h.isDirectory l).symm⟩

theorem SameDirectories.trans (h : s.SameDirectories t) (h' : t.SameDirectories u) :
    s.SameDirectories u :=
  ⟨h'.here.trans h.here, fun l => (h'.isDirectory l).trans (h.isDirectory l)⟩

/-- A route leads to the name `x` in the directory at `l`, which has a file there or room for it. -/
structure Room (s : Store) (r : Route) (l : Location) (x : Text) : Prop where
  walk : s.walk (s.origin r) r.names.dropLast = .ok (.directory l)
  last : r.names.getLast? = some x
  isName : ¬ (x = ['.'] ∨ x = ['.', '.'] ∨ r.endsInSlash)
  length : Text.byteLength x ≤ nameLimit
  free : (s.node? (l ++ [x])).any Node.isDirectory = false

theorem locate_eq_ok_iff : s.locate path = .ok k ↔
    ∃ r l x, Route.ofPath path = .ok r ∧ s.Room r l x ∧ k = l ++ [x] := by
  constructor
  · intro h
    obtain ⟨r, hr, h⟩ := bind_eq_ok_iff.mp h
    obtain ⟨p, hw, h⟩ := bind_eq_ok_iff.mp h
    cases p with
    | file l b => cases h
    | directory l =>
        cases hlast : r.names.getLast? with
        | none =>
            rw [hlast] at h
            cases h
        | some x =>
            simp only [hlast] at h
            split at h <;> rename_i hname
            · cases h
            split at h <;> rename_i hlen
            · cases h
            split at h <;> rename_i hfree
            · cases h
            cases h
            exact ⟨r, l, x, hr,
              ⟨hw, hlast, hname, Nat.le_of_not_lt hlen, by simpa using hfree⟩, rfl⟩
  · rintro ⟨r, l, x, hr, ⟨hw, hlast, hname, hlen, hfree⟩, rfl⟩
    refine bind_eq_ok_iff.mpr ⟨r, hr, bind_eq_ok_iff.mpr ⟨_, hw, ?_⟩⟩
    simp [hlast, if_neg hname, Nat.not_lt.mpr hlen, hfree]

/-- Where a file can be written, the path leads to it, whether it is there or not. -/
theorem leads_of_locate (h : s.locate path = .ok k) : s.Leads path k := by
  obtain ⟨r, l, x, hr, hroom, rfl⟩ := locate_eq_ok_iff.mp h
  obtain ⟨hdot, hdots, hend⟩ : x ≠ ['.'] ∧ x ≠ ['.', '.'] ∧ r.endsInSlash = false := by
    simpa using hroom.isName
  obtain ⟨f, n, hs⟩ := Path.exists_splits path
  obtain ⟨hne, rfl⟩ := eq_fileRoute_of_splits hs hr hend
  obtain rfl : n = x := by simpa [fileRoute] using hroom.last
  obtain rfl := hs.eq
  exact ⟨f, n, l, ⟨hs, ⟨hne, hdot, hdots⟩, hr, hroom.walk, hroom.length, hroom.free⟩, rfl, rfl⟩

/-- A file can be written at a path, be it a new one or in place of an old one. -/
def IsWritable (s : Store) (path : Text) : Prop := ∃ k, s.locate path = .ok k

/-- Where a file can be written, there is one or nothing. -/
theorem IsWritable.isFileOrAbsent (h : s.IsWritable path) : s.IsFileOrAbsent path := by
  obtain ⟨k, hk⟩ := h
  rw [IsFileOrAbsent, (leads_of_locate hk).find]
  split
  · exact .inr ⟨_, _, rfl⟩
  · exact .inl rfl

theorem Room.of_sameDirectories (h : s.SameDirectories t) (hr : s.Room r l x) : t.Room r l x where
  walk := by
    rw [h.origin_eq]
    exact walk_of_sameDirectories h hr.walk
  last := hr.last
  isName := hr.isName
  length := hr.length
  free := (h.isDirectory _).trans hr.free

/-- Files that come and change do not move the location of a path. -/
theorem locate_congr (h : s.SameDirectories t) : t.locate path = .ok k ↔ s.locate path = .ok k := by
  rw [locate_eq_ok_iff, locate_eq_ok_iff]
  constructor
  · rintro ⟨r, l, x, hr, hroom, hk⟩
    exact ⟨r, l, x, hr, hroom.of_sameDirectories h.symm, hk⟩
  · rintro ⟨r, l, x, hr, hroom, hk⟩
    exact ⟨r, l, x, hr, hroom.of_sameDirectories h, hk⟩

/-! ## Frames -/

/-- From one store to another, files have come or changed only where the paths lead. -/
structure Frames (paths : List Text) (s t : Store) : Prop where
  sameDirectories : s.SameDirectories t
  node?_eq : ∀ x, (∀ p ∈ paths, s.locate p ≠ .ok x) → t.node? x = s.node? x

namespace Frames

theorem refl (paths : List Text) (s : Store) : Frames paths s s := ⟨.refl s, fun _ _ => rfl⟩

theorem trans (h : Frames paths s t) (h' : Frames paths t u) : Frames paths s u where
  sameDirectories := h.sameDirectories.trans h'.sameDirectories
  node?_eq x hx := by
    have ht : ∀ p ∈ paths, t.locate p ≠ .ok x := fun p hp hl =>
      hx p hp ((locate_congr h.sameDirectories).mp hl)
    rw [h'.node?_eq x ht, h.node?_eq x hx]

theorem put (hp : path ∈ paths) (hk : s.locate path = .ok k) (b : ByteArray) :
    Frames paths s (s.put k b) := by
  obtain ⟨r, l, x, -, hroom, rfl⟩ := locate_eq_ok_iff.mp hk
  refine ⟨sameDirectories_put hroom.free b, fun y hy => ?_⟩
  have hxy : l ++ [x] ≠ y := by
    rintro rfl
    exact hy path hp hk
  rw [node?_put s (not_around_of_free hroom.free), if_neg hxy]

/-- A file that the paths do not lead to is read as before. -/
theorem read_eq (h : Frames paths s t) (hk : s.Leads path k)
    (hp : ∀ p ∈ paths, s.locate p ≠ .ok k) {b : ByteArray} (hb : s.node? k = some (.file b)) :
    t.read path = .ok b := by
  obtain ⟨f, n, l, hplaces, hpath, hl⟩ := hk
  have hleads : t.Leads path k := ⟨f, n, l, hplaces.of_sameDirectories h.sameDirectories, hpath, hl⟩
  exact hleads.read_of_node? ((h.node?_eq k hp).trans hb)

end Frames

/-! ## The artifacts of a file -/

/-- An artifact lies at another location than the file, unless it has the path of the file. -/
theorem Places.locate_artifact_ne {f n e : Text} (h : s.Places f n l) (he : '/' ∉ e)
    (hne : Path.withExtension (f ++ n) e ≠ f ++ n) :
    s.locate (Path.withExtension (f ++ n) e) ≠ .ok (l ++ [n]) := by
  intro hloc
  obtain ⟨r, l', x, hr, hroom, hx⟩ := locate_eq_ok_iff.mp hloc
  obtain ⟨rfl, rfl⟩ : l = l' ∧ n = x := by simpa using hx
  -- the name at the end of the path of the artifact would be that of the file
  have hlast : ∀ m, m ≠ [] → '/' ∉ m → Path.withExtension (f ++ n) e = f ++ m → m = n := by
    intro m hm hslash heq
    rw [heq, ofPath_of_splits (h.splits.beside hslash) hm] at hr
    repeat' split at hr
    all_goals cases hr
    simpa [fileRoute] using hroom.last
  rcases h.splits.withExtension_eq h.isName he with heq | heq
  · have hslash : '/' ∉ Path.stem n ++ '.' :: e := by
      simp [Path.not_mem_stem h.splits.name, he]
    exact hne (heq.trans (by rw [hlast _ (by simp) hslash heq]))
  · exact h.isName.ne_dots (hlast _ (by simp) (by simp) heq).symm

end BlockLang.Store
