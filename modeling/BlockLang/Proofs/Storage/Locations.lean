import BlockLang.Proofs.Artifact.Path
import BlockLang.Proofs.Text.Bytes
import BlockLang.Storage.Store
import Std.Data.TreeMap.Lemmas

/-!
# Files of a store

What a path finds is decided by what is at one location, and a file that is written there changes
nothing else.
-/

namespace BlockLang.Store

open BlockLang.Path (Splits IsName outer)

variable {s t : Store}

/-- What is done in turn succeeds if each part does. -/
theorem bind_eq_ok_iff {ε α β : Type} {x : Except ε α} {f : α → Except ε β} {b : β} :
    x >>= f = .ok b ↔ ∃ a, x = .ok a ∧ f a = .ok b := by
  cases x <;> simp [bind, Except.bind]

/-! ## Nodes -/

theorem node?_put (s : Store) {l : Location} (hl : ¬ l <+: s.here) (b : ByteArray) (k : Location) :
    (s.put l b).node? k = if l = k then some (.file b) else s.node? k := by
  by_cases hk : k <+: s.here
  · have hne : l ≠ k := by
      rintro rfl
      exact hl hk
    simp [node?, put, hk, hne]
  · simp [node?, put, hk, Std.TreeMap.getElem?_insert]

/-- What is no directory does not lie around the working directory. -/
theorem not_around_of_free {l : Location} (h : (s.node? l).any Node.isDirectory = false) :
    ¬ l <+: s.here := by
  intro hl
  rw [node?, if_pos hl] at h
  cases h

/-- Two stores have their directories, and the working directory among them, at the same
locations. -/
structure SameDirectories (s t : Store) : Prop where
  here : t.here = s.here
  isDirectory : ∀ l, (t.node? l).any Node.isDirectory = (s.node? l).any Node.isDirectory

theorem SameDirectories.origin_eq (h : s.SameDirectories t) (r : Route) :
    t.origin r = s.origin r := by
  rw [origin, origin, h.here]

theorem sameDirectories_put {l : Location} (hd : (s.node? l).any Node.isDirectory = false)
    (b : ByteArray) : s.SameDirectories (s.put l b) := by
  refine ⟨rfl, fun k => ?_⟩
  rw [node?_put s (not_around_of_free hd)]
  split
  · rename_i hk
    rw [← hk, hd]
    rfl
  · rfl

/-! ## Walks -/

theorem node?_of_sameDirectories (h : s.SameDirectories t) {l : Location}
    (hl : s.node? l = some .directory) : t.node? l = some .directory := by
  have ht := h.isDirectory l
  rw [hl] at ht
  cases hn : t.node? l with
  | none => simp [hn, Node.isDirectory] at ht
  | some n => cases n <;> simp_all [Node.isDirectory]

/-- A name leads on to a directory whatever the files hold. -/
theorem enter_of_sameDirectories (h : s.SameDirectories t) {x : Text} {p : Spot} {k : Location}
    (hp : s.enter x p = .ok (.directory k)) : t.enter x p = .ok (.directory k) := by
  cases p with
  | file l b => cases hp
  | directory l =>
      simp only [enter] at hp ⊢
      split <;> rename_i hdot
      · rwa [if_pos hdot] at hp
      rw [if_neg hdot] at hp
      split <;> rename_i hdots
      · rwa [if_pos hdots] at hp
      rw [if_neg hdots] at hp
      split <;> rename_i hlen
      · rwa [if_pos hlen] at hp
      rw [if_neg hlen] at hp
      cases hn : s.node? (l ++ [x]) with
      | none => simp [hn] at hp
      | some n =>
          cases n with
          | directory => simpa [hn, node?_of_sameDirectories h hn] using hp
          | file b => simp [hn] at hp

theorem walk_cons (s : Store) (p : Spot) (x : Text) (xs : List Text) :
    s.walk p (x :: xs) = s.enter x p >>= fun q => s.walk q xs := rfl

theorem walk_concat (s : Store) (p : Spot) (xs : List Text) (x : Text) :
    s.walk p (xs ++ [x]) = s.walk p xs >>= s.enter x := by
  simp [walk]

/-- Nothing leads from a file to a directory. -/
theorem exists_directory_of_walk {p : Spot} {xs : List Text} {k : Location}
    (h : s.walk p xs = .ok (.directory k)) : ∃ l, p = .directory l := by
  cases p with
  | directory l => exact ⟨l, rfl⟩
  | file l b => cases xs <;> cases h

theorem walk_of_sameDirectories (h : s.SameDirectories t) {p : Spot} {xs : List Text}
    {k : Location} (hw : s.walk p xs = .ok (.directory k)) :
    t.walk p xs = .ok (.directory k) := by
  induction xs generalizing p with
  | nil => exact hw
  | cons x xs ih =>
      rw [walk_cons, bind_eq_ok_iff] at hw ⊢
      obtain ⟨q, hp, hq⟩ := hw
      obtain ⟨l, rfl⟩ := exists_directory_of_walk hq
      exact ⟨_, enter_of_sameDirectories h hp, ih hq⟩

/-! ## Files in a folder -/

def fileRoute (f n : Text) : Route :=
  ⟨f.head? = some '/', (outer f).filter (· ≠ []) ++ [n], false⟩

theorem ofPath_of_splits {path f n : Text} (h : Splits path f n) (hn : n ≠ []) :
    Route.ofPath path =
      if '\x00' ∈ path then .error .nulInPath
      else if pathLimit ≤ Text.byteLength path then .error .nameTooLong
      else .ok (fileRoute f n) := by
  have hne : path ≠ [] := by simp [h.eq, hn]
  have hhead : path.head? = some '/' ↔ f.head? = some '/' := by
    rw [h.eq]
    cases f with
    | nil =>
        have := h.name
        cases n <;> simp_all [eq_comm]
    | cons c f => rfl
  have hlast : path.getLast? ≠ some '/' := by
    intro hm
    rw [h.eq, List.getLast?_append, Option.or_eq_some_iff] at hm
    rcases hm with hm | ⟨hm, -⟩
    · exact h.name (List.mem_of_getLast? hm)
    · exact hn (List.getLast?_eq_none_iff.mp hm)
  simp [Route.ofPath, fileRoute, hne, hhead, hlast, h.pieces_eq, hn]

theorem endsInSlash_of_splits {path f : Text} {r : Route} (h : Splits path f [])
    (hr : Route.ofPath path = .ok r) : r.endsInSlash = true := by
  unfold Route.ofPath at hr
  repeat' split at hr
  all_goals cases hr
  obtain ⟨rfl, rfl | ⟨u, rfl⟩, -⟩ := h
  · contradiction
  · simp

/-- A path that does not end in a slash has a name at its end. -/
theorem eq_fileRoute_of_splits {path f n : Text} {r : Route} (h : Splits path f n)
    (hr : Route.ofPath path = .ok r) (hend : r.endsInSlash = false) :
    n ≠ [] ∧ r = fileRoute f n := by
  have hn : n ≠ [] := by
    rintro rfl
    exact absurd hend (by simp [endsInSlash_of_splits h hr])
  refine ⟨hn, ?_⟩
  rw [ofPath_of_splits h hn] at hr
  repeat' split at hr
  all_goals cases hr
  rfl

theorem walk_of_find {path : Text} {k : Location} {b : ByteArray}
    (h : s.find path = .ok (.file k b)) : ∃ r, Route.ofPath path = .ok r ∧ r.endsInSlash = false ∧
      s.walk (s.origin r) r.names = .ok (.file k b) := by
  obtain ⟨r, hr, h⟩ := bind_eq_ok_iff.mp h
  obtain ⟨p, hw, h⟩ := bind_eq_ok_iff.mp h
  cases p with
  | directory l => cases h
  | file k' b' =>
      dsimp only at h
      split at h <;> rename_i hend <;> cases h
      exact ⟨r, hr, by simpa using hend, hw⟩

/-- Only a name in a directory leads to a file. -/
theorem enter_eq_file {x : Text} {p : Spot} {k : Location} {b : ByteArray}
    (h : s.enter x p = .ok (.file k b)) : ∃ l, p = .directory l ∧ k = l ++ [x] ∧
      (x ≠ ['.'] ∧ x ≠ ['.', '.']) ∧ Text.byteLength x ≤ nameLimit ∧
      s.node? (l ++ [x]) = some (.file b) := by
  cases p with
  | file l c => cases h
  | directory l =>
      by_cases hdot : x = ['.']
      · simp [enter, hdot] at h
      by_cases hdots : x = ['.', '.']
      · simp [enter, hdots] at h
      by_cases hlen : nameLimit < Text.byteLength x
      · simp [enter, hdot, hdots, hlen] at h
      simp only [enter, if_neg hdot, if_neg hdots, if_neg hlen] at h
      split at h <;> cases h
      rename_i hnode
      exact ⟨l, rfl, rfl, ⟨hdot, hdots⟩, Nat.le_of_not_lt hlen, hnode⟩

/-- A path finds a file, or nothing where one could be. -/
def IsFileOrAbsent (s : Store) (path : Text) : Prop :=
  s.find path = .error .notFound ∨ ∃ k b, s.find path = .ok (.file k b)

theorem ofPath_of_find {path f n : Text} (hs : Splits path f n) (hn : n ≠ [])
    (h : s.IsFileOrAbsent path) : Route.ofPath path = .ok (fileRoute f n) := by
  have hof := ofPath_of_splits hs hn
  unfold IsFileOrAbsent find at h
  rw [hof] at h ⊢
  repeat' split at h
  all_goals simp_all [bind, Except.bind]

theorem enter_of_isName {x : Text} (hx : IsName x) (l : Location) : s.enter x (.directory l) =
    if nameLimit < Text.byteLength x then .error .nameTooLong
    else
      match s.node? (l ++ [x]) with
      | none => .error .notFound
      | some .directory => .ok (.directory (l ++ [x]))
      | some (.file b) => .ok (.file (l ++ [x]) b) := by
  exact (if_neg hx.ne_dot).trans (if_neg hx.ne_dots)

theorem find_of_route {path f n : Text} {l : Location}
    (hr : Route.ofPath path = .ok (fileRoute f n))
    (hw : s.walk (s.origin (fileRoute f n)) (fileRoute f n).names.dropLast = .ok (.directory l)) :
    s.find path = s.enter n (.directory l) := by
  have hnames : (fileRoute f n).names = (fileRoute f n).names.dropLast ++ [n] := by
    simp [fileRoute]
  have hend : (fileRoute f n).endsInSlash = false := rfl
  rw [find, hr]
  simp only [bind, Except.bind]
  rw [hnames, walk_concat, hw]
  simp only [bind, Except.bind]
  cases s.enter n (.directory l) with
  | error e => rfl
  | ok p => cases p <;> simp [hend]

/-- The directory at `l` has the file of name `n` in the folder `f`, or has room for it. -/
structure Places (s : Store) (f n : Text) (l : Location) : Prop where
  splits : Splits (f ++ n) f n
  isName : IsName n
  route : Route.ofPath (f ++ n) = .ok (fileRoute f n)
  walk : s.walk (s.origin (fileRoute f n)) (fileRoute f n).names.dropLast = .ok (.directory l)
  length : Text.byteLength n ≤ nameLimit
  free : (s.node? (l ++ [n])).any Node.isDirectory = false

namespace Places

variable {f n m : Text} {l : Location}

theorem locate (h : s.Places f n l) : s.locate (f ++ n) = .ok (l ++ [n]) := by
  have hlast : (fileRoute f n).names.getLast? = some n := by simp [fileRoute]
  have hslash : (fileRoute f n).endsInSlash = false := rfl
  simp [Store.locate, h.route, bind, Except.bind, h.walk, hlast, hslash, h.isName.ne_dot,
    h.isName.ne_dots, Nat.not_lt.mpr h.length, h.free]

theorem find (h : s.Places f n l) : s.find (f ++ n) =
    match s.node? (l ++ [n]) with
    | some (.file b) => .ok (.file (l ++ [n]) b)
    | _ => .error .notFound := by
  have hfree := h.free
  rw [find_of_route h.route h.walk, enter_of_isName h.isName, if_neg (Nat.not_lt.mpr h.length)]
  cases hn : s.node? (l ++ [n]) with
  | none => rfl
  | some x =>
      cases x with
      | file b => rfl
      | directory => simp [hn, Node.isDirectory] at hfree

/-- A path that finds a file has a place for it. -/
theorem of_find {path : Text} {k : Location} {b : ByteArray} (hs : Splits path f n)
    (h : s.find path = .ok (.file k b)) :
    ∃ l, s.Places f n l ∧ s.node? (l ++ [n]) = some (.file b) ∧ k = l ++ [n] := by
  obtain ⟨r, hr, hend, hw⟩ := walk_of_find h
  obtain ⟨hne, rfl⟩ := eq_fileRoute_of_splits hs hr hend
  have hnames : (fileRoute f n).names = (fileRoute f n).names.dropLast ++ [n] := by
    simp [fileRoute]
  rw [hnames, walk_concat, bind_eq_ok_iff] at hw
  obtain ⟨p, hp, hw⟩ := hw
  obtain ⟨l, rfl, hk, hn, hlen, hnode⟩ := enter_eq_file hw
  obtain rfl := hs.eq
  exact ⟨l, ⟨hs, ⟨hne, hn.1, hn.2⟩, hr, hp, hlen, by simp [hnode, Node.isDirectory]⟩, hnode, hk⟩

theorem walk_beside (h : s.Places f n l) (m : Text) :
    s.walk (s.origin (fileRoute f m)) (fileRoute f m).names.dropLast = .ok (.directory l) := by
  have := h.walk
  simpa [origin, fileRoute] using this

/-- A path to the same folder that finds a file or nothing has a place there. -/
theorem beside (h : s.Places f n l) (hm : IsName m) (hslash : '/' ∉ m)
    (hfind : s.IsFileOrAbsent (f ++ m)) : s.Places f m l := by
  have hs : Splits (f ++ m) f m := h.splits.beside hslash
  have hw := h.walk_beside m
  have hr : Route.ofPath (f ++ m) = .ok (fileRoute f m) :=
    ofPath_of_find hs hm.ne_nil hfind
  rw [IsFileOrAbsent, find_of_route hr hw, enter_of_isName hm] at hfind
  by_cases hlen : nameLimit < Text.byteLength m
  · simp [hlen] at hfind
  · rw [if_neg hlen] at hfind
    refine ⟨hs, hm, hr, hw, Nat.le_of_not_lt hlen, ?_⟩
    cases hn : s.node? (l ++ [m]) with
    | none => rfl
    | some x =>
        cases x with
        | file b => rfl
        | directory => simp [hn] at hfind

/-- Two dots find the directory around a folder. -/
theorem not_isFileOrAbsent_dots (h : s.Places f n l) : ¬ s.IsFileOrAbsent (f ++ ['.', '.']) := by
  intro hfind
  have hr := ofPath_of_find (h.splits.beside (m := ['.', '.']) (by simp)) (by simp) hfind
  rw [IsFileOrAbsent, find_of_route hr (h.walk_beside _)] at hfind
  have hdots : s.enter ['.', '.'] (.directory l) = .ok (.directory l.dropLast) := rfl
  rw [hdots] at hfind
  rcases hfind with hfind | ⟨k, b, hfind⟩ <;> cases hfind

/-- An artifact of a file has its place beside it. -/
theorem artifact {e : Text} (h : s.Places f n l) (he : '/' ∉ e) (hlen : 2 ≤ e.length)
    (hfind : s.IsFileOrAbsent (Path.withExtension (f ++ n) e)) :
    Path.withExtension (f ++ n) e = f ++ (Path.stem n ++ '.' :: e) ∧
      s.Places f (Path.stem n ++ '.' :: e) l := by
  have hname : IsName (Path.stem n ++ '.' :: e) := by
    constructor <;> intro heq <;> have hl := congrArg List.length heq <;> simp at hl <;> omega
  rcases h.splits.withExtension_eq h.isName he with heq | heq
  · rw [heq] at hfind
    exact ⟨heq, h.beside hname (by simp [Path.not_mem_stem h.splits.name, he]) hfind⟩
  · rw [heq] at hfind
    exact absurd hfind h.not_isFileOrAbsent_dots

theorem of_sameDirectories (h : s.Places f n l) (hst : s.SameDirectories t) : t.Places f n l where
  splits := h.splits
  isName := h.isName
  route := h.route
  walk := by
    rw [hst.origin_eq]
    exact walk_of_sameDirectories hst h.walk
  length := h.length
  free := (hst.isDirectory _).trans h.free

/-- Files that are written leave a place as it is. -/
theorem put {k : Location} (h : s.Places f n l)
    (hd : (s.node? k).any Node.isDirectory = false) (b : ByteArray) :
    (s.put k b).Places f n l :=
  h.of_sameDirectories (sameDirectories_put hd b)

end Places

theorem exists_places {path : Text} {k : Location} {b : ByteArray}
    (h : s.find path = .ok (.file k b)) : ∃ f n l, s.Places f n l ∧
      s.node? k = some (.file b) ∧ path = f ++ n ∧ k = l ++ [n] := by
  obtain ⟨f, n, hs⟩ := Path.exists_splits path
  obtain ⟨l, hp, hnode, rfl⟩ := Places.of_find hs h
  exact ⟨f, n, l, hp, hnode, hs.eq, rfl⟩

/-! ## Reading and writing -/

/-- A path leads to the location of a file, which is there or can be made. -/
def Leads (s : Store) (path : Text) (k : Location) : Prop :=
  ∃ f n l, s.Places f n l ∧ path = f ++ n ∧ k = l ++ [n]

theorem Places.leads_artifact {f n e : Text} {l : Location} (h : s.Places f n l) (he : '/' ∉ e)
    (hlen : 2 ≤ e.length) (hfind : s.IsFileOrAbsent (Path.withExtension (f ++ n) e)) :
    s.Leads (Path.withExtension (f ++ n) e) (l ++ [Path.stem n ++ '.' :: e]) := by
  obtain ⟨heq, hplaces⟩ := h.artifact he hlen hfind
  exact ⟨f, _, l, hplaces, heq, rfl⟩

theorem leads_of_find {path : Text} {k : Location} {b : ByteArray}
    (h : s.find path = .ok (.file k b)) : s.Leads path k ∧ s.node? k = some (.file b) := by
  obtain ⟨f, n, l, hp, hnode, hpath, hk⟩ := exists_places h
  exact ⟨⟨f, n, l, hp, hpath, hk⟩, hnode⟩

theorem readText_of_read {path t : Text} (h : s.read path = .ok t.bytes) :
    s.readText path = .ok t := by
  simp [readText, h, bind, Except.bind, Text.fromUTF8?_bytes]

theorem readText_of_find {path t : Text} {k : Location} (h : s.find path = .ok (.file k t.bytes)) :
    s.readText path = .ok t :=
  readText_of_read (by rw [read, h]; rfl)

theorem readText_of_find_error {path : Text} {e : StorageFault} (h : s.find path = .error e) :
    s.readText path = .error e := by
  simp [readText, read, h, bind, Except.bind]

/-- A text that is read is what a file holds. -/
theorem find_of_readText {path t : Text} (h : s.readText path = .ok t) :
    ∃ k, s.find path = .ok (.file k t.bytes) := by
  obtain ⟨b, hb, h⟩ := bind_eq_ok_iff.mp h
  obtain ⟨p, hp, hb⟩ := bind_eq_ok_iff.mp hb
  cases p with
  | directory l => cases hb
  | file k c =>
      cases hb
      split at h <;> cases h
      rename_i x hx
      exact ⟨k, by rw [hp, Text.bytes_of_fromUTF8? hx]⟩

namespace Leads

variable {path : Text} {j k : Location}

/-- A file does not lie around the working directory. -/
theorem not_around (h : s.Leads path k) : ¬ k <+: s.here := by
  obtain ⟨f, n, l, hp, -, rfl⟩ := h
  exact not_around_of_free hp.free

theorem locate (h : s.Leads path k) : s.locate path = .ok k := by
  obtain ⟨f, n, l, hp, rfl, rfl⟩ := h
  exact hp.locate

theorem find (h : s.Leads path k) : s.find path =
    match s.node? k with
    | some (.file b) => .ok (.file k b)
    | _ => .error .notFound := by
  obtain ⟨f, n, l, hp, rfl, rfl⟩ := h
  exact hp.find

/-- A file that is written at one place leaves the path to another. -/
theorem put {path' : Text} (h : s.Leads path k) (h' : s.Leads path' j) (b : ByteArray) :
    (s.put j b).Leads path k := by
  obtain ⟨f', n', l', hp', -, rfl⟩ := h'
  obtain ⟨f, n, l, hp, hpath, hk⟩ := h
  exact ⟨f, n, l, hp.put hp'.free b, hpath, hk⟩

theorem write (h : s.Leads path k) (b : ByteArray) : s.write path b = .ok (s.put k b) := by
  rw [Store.write, h.locate]
  rfl

theorem append (h : s.Leads path k) (b : ByteArray) :
    s.append path b = .ok (s.put k (s.contentAt k ++ b)) := by
  rw [Store.append, h.locate]
  rfl

theorem read_of_node? (h : s.Leads path k) {b : ByteArray} (hb : s.node? k = some (.file b)) :
    s.read path = .ok b := by
  rw [Store.read, h.find, hb]
  rfl

theorem contentAt_of_notFound (h : s.Leads path k)
    (hread : s.readText path = .error .notFound) : s.contentAt k = Text.bytes [] := by
  have hfind := h.find
  rw [contentAt]
  split
  · rename_i b hnode
    rw [hnode] at hfind
    simp only [readText, read, hfind, bind, Except.bind] at hread
    split at hread <;> cases hread
  · rfl

theorem readText_of_node? (h : s.Leads path k) {t : Text}
    (ht : s.node? k = some (.file t.bytes)) : s.readText path = .ok t := by
  refine readText_of_find (k := k) ?_
  rw [h.find, ht]

end Leads

end BlockLang.Store
