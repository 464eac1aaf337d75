import Mathlib.Data.List.Nodup
import GridSat.Proofs.Distinct
import GridSat.Proofs.Files.Paths
import GridSat.Proofs.Files.Walk

/-!
# Trees as disks

A tree stands for directories if its places are made of proper names, are different,
and have nothing below them unless they are directories (`Tree.WellFormed`). The disk of
such a tree walks as is expected of a disk, as long as it can go into all directories
(`Tree.WellFormed.walksThrough`).

The path of an entry below a directory leads to this entry, as following it goes through
the directory and then from name to name (`Tree.WellFormed.locate_joinPath`). So looking
at the paths of a walk tells the regular files from the rest
(`Tree.WellFormed.isFile_joinPath_iff`), unless a path has become too long: then it seems
to lead nowhere (`Tree.isFile_of_tooLong`).
-/

namespace GridSat

namespace Tree

/-- The tree could be found on a disk. -/
structure WellFormed (t : Tree) : Prop where
  /-- The root of the tree is not listed. -/
  ne_nil : ∀ entry ∈ t.entries, entry.1 ≠ []
  /-- All names are names of entries. -/
  isName : ∀ entry ∈ t.entries, ∀ name ∈ entry.1, IsName name
  /-- No place is listed twice. -/
  nodup : (t.entries.map Prod.fst).Nodup
  /-- Only directories have something below them. -/
  directory : ∀ entry ∈ t.entries, ∀ entry' ∈ t.entries, ∀ name rest,
    entry'.1 = entry.1 ++ name :: rest → entry.2 = .directory

/-- Names lead on from a place to a regular file. -/
def FileBelow (t : Tree) (names way : List String) : Prop :=
  ∃ content, (names ++ way, .file content) ∈ t.entries

variable {t : Tree} {names way place : List String} {content : Except FileFault ByteArray}
  {node : Node} {path : String}

/-! ### Looking places up -/

theorem mem_of_lookup (h : t.entries.lookup place = some node) : (place, node) ∈ t.entries := by
  obtain ⟨before, after, hsplit, _⟩ := List.lookup_eq_some_iff.1 h
  rw [hsplit]
  exact List.mem_append_right _ List.mem_cons_self

/-- Entries of a place are one entry. -/
theorem WellFormed.eq_of_mem (ht : t.WellFormed) {node' : Node} (h : (place, node) ∈ t.entries)
    (h' : (place, node') ∈ t.entries) : node = node' :=
  congrArg Prod.snd (List.inj_on_of_nodup_map ht.nodup h h' rfl)

theorem WellFormed.find?_of_mem (ht : t.WellFormed) (h : (place, node) ∈ t.entries) :
    t.find? place = some node := by
  have hlookup : t.entries.lookup place = some node := by
    cases hplace : t.entries.lookup place with
    | none => exact absurd (List.lookup_eq_none_iff.1 hplace _ h) (by simp)
    | some node' => rw [ht.eq_of_mem h (mem_of_lookup hplace)]
  have hne : place.isEmpty = false := by simpa using ht.ne_nil _ h
  rw [find?, hne, hlookup]
  rfl

/-- What has an entry below it is a directory, listed or not. -/
theorem WellFormed.find?_of_below (ht : t.WellFormed) {name : String}
    (h : (names ++ name :: way, node) ∈ t.entries) : t.find? names = some .directory := by
  by_cases hroot : names.isEmpty = true
  · rw [find?, if_pos hroot]
  rw [find?, if_neg hroot]
  cases hlookup : t.entries.lookup names with
  | some node' =>
    exact congrArg some (ht.directory _ (mem_of_lookup hlookup) _ h name way rfl)
  | none =>
    have hfront : names <+: names ++ name :: way := List.prefix_append ..
    exact if_pos (List.any_eq_true.2 ⟨_, h, List.isPrefixOf_iff_prefix.2 hfront⟩)

/-- Something is found on the way to an entry. -/
theorem WellFormed.isSome_find? (ht : t.WellFormed) (h : (place, node) ∈ t.entries)
    (hfront : names <+: place) : (t.find? names).isSome = true := by
  obtain ⟨rest, rfl⟩ := hfront
  cases rest with
  | nil =>
    rw [List.append_nil] at h
    exact Option.isSome_iff_exists.2 ⟨_, ht.find?_of_mem h⟩
  | cons name rest => exact Option.isSome_iff_exists.2 ⟨_, ht.find?_of_below h⟩

/-- A file is found only where one is listed. -/
theorem WellFormed.find?_eq_file_iff (ht : t.WellFormed) :
    t.find? place = some (.file content) ↔ (place, .file content) ∈ t.entries := by
  refine ⟨fun h => ?_, ht.find?_of_mem⟩
  rw [find?] at h
  split at h
  · exact absurd h nofun
  split at h
  · next node hlookup => exact Option.some.inj h ▸ mem_of_lookup hlookup
  · split at h <;> exact absurd h nofun

/-! ### Following paths -/

theorem follow_append (t : Tree) (place : Place) (names rest : List String) :
    t.follow place (names ++ rest) =
      match t.follow place names with
      | .error fault => .error fault
      | .ok place' => t.follow place' rest := by
  induction names generalizing place with
  | nil => rfl
  | cons name names ih =>
    rw [List.cons_append, follow, follow]
    cases t.at? place with
    | none => rfl
    | some found =>
      cases found with
      | file _ => rfl
      | device => rfl
      | directory =>
        dsimp only
        split
        · exact ih place
        split
        · exact ih place.parent
        split
        · rfl
        cases (place.child? name).filter fun next => (t.at? next).isSome with
        | none => rfl
        | some next => exact ih next

/-- From a directory, the names on the way to an entry below it lead on. -/
theorem WellFormed.follow_of_mem (ht : t.WellFormed) (h : (place, node) ∈ t.entries)
    (hfront : names ++ way <+: place) :
    t.follow (.below names) way = .ok (.below (names ++ way)) := by
  induction way generalizing names with
  | nil => rw [List.append_nil, follow]
  | cons name way ih =>
    have hnext : names ++ [name] ++ way <+: place := by
      rwa [List.append_assoc, List.singleton_append]
    have hdirectory : t.at? (.below names) = some .directory := by
      obtain ⟨rest, rfl⟩ := hfront
      rw [List.append_assoc] at h
      exact ht.find?_of_below h
    have hname := ht.isName _ h name
      (hfront.subset (List.mem_append_right _ List.mem_cons_self))
    have hfound : (t.at? (.below (names ++ [name]))).isSome = true :=
      ht.isSome_find? h ((List.prefix_append ..).trans hnext)
    have hchild : ((Place.below names).child? name).filter (fun next => (t.at? next).isSome) =
        some (.below (names ++ [name])) := Option.filter_eq_some_iff.2 ⟨rfl, hfound⟩
    rw [follow, hdirectory]
    simp only [hname.ne_empty, hname.ne_dot, hname.ne_dots, Nat.not_lt.2 hname.size_le, or_self,
      if_false, hchild]
    rw [ih hnext, List.append_assoc]
    rfl

/-- Empty names and dots lead nowhere else. -/
theorem follow_of_stay {place : Place} (hdirectory : t.at? place = some .directory)
    (h : ∀ name ∈ names, name = "" ∨ name = ".") : t.follow place names = .ok place := by
  induction names with
  | nil => rfl
  | cons name names ih =>
    obtain ⟨hname, hnames⟩ := List.forall_mem_cons.1 h
    rw [follow, hdirectory]
    exact (if_pos hname).trans (ih hnames)

/-- An empty name at the end of a path only asks for a directory. -/
theorem follow_of_append_empty {place place' : Place} {lead : List String}
    (h : t.follow place (lead ++ [""]) = .ok place') : t.follow place lead = .ok place' := by
  rw [follow_append] at h
  cases hlead : t.follow place lead with
  | error fault => simp [hlead] at h
  | ok place'' =>
    simp only [hlead, follow, true_or, if_true] at h
    split at h
    · exact h
    · exact absurd h nofun

/-- What it takes for a path to lead somewhere. -/
theorem locate_eq_ok_iff {place : Place} : t.locate path = .ok place ↔
    path ≠ "" ∧ path.utf8ByteSize ≤ pathLimit ∧
      t.follow (.start path) (pathNames path) = .ok place := by
  rw [locate]
  split
  · next h => simp_all
  next hne =>
  split
  · next h => simp [Nat.not_le.2 h]
  · next h => simp_all

theorem node_eq_ok_iff :
    t.node path = .ok node ↔ ∃ place, t.locate path = .ok place ∧ t.at? place = some node := by
  rw [Tree.node]
  cases t.locate path with
  | error fault => simp
  | ok place => cases hfound : t.at? place <;> simp [hfound]

/-- A path that is too long leads nowhere. -/
theorem node_of_tooLong (h : pathLimit < path.utf8ByteSize) : t.node path = .error .tooLong := by
  have hne : ¬path.isEmpty = true := by
    rw [String.isEmpty_iff]
    rintro rfl
    exact Nat.not_lt_zero _ h
  rw [Tree.node, locate, if_neg hne, if_pos h]

/-! ### The ways of a walk -/

theorem mem_waysTo_iff : way ∈ waysTo names place ↔ names ++ way <+: place := by
  rw [waysTo]
  split
  · next h =>
    obtain ⟨rest, rfl⟩ := List.isPrefixOf_iff_prefix.1 h
    simp only [List.drop_left, List.mem_map, List.mem_range, List.prefix_append_right_inj]
    constructor
    · rintro ⟨n, _, rfl⟩
      exact List.take_prefix n rest
    · intro hfront
      exact ⟨way.length, Nat.lt_succ_of_le hfront.length_le,
        (List.prefix_iff_eq_take.1 hfront).symm⟩
  · next h =>
    refine iff_of_false List.not_mem_nil fun hfront => h ?_
    exact List.isPrefixOf_iff_prefix.2 ((List.prefix_append ..).trans hfront)

theorem mem_waysBelow_iff : way ∈ t.waysBelow names ↔ way ∈ t.waysFrom names := by
  rw [waysBelow, List.mem_mergeSort, List.mem_eraseDups]

/-- Every way of a walk leads to the directory itself, or to an entry or some of the way
    to it. -/
theorem mem_waysFrom_iff :
    way ∈ t.waysFrom names ↔ way = [] ∨ ∃ entry ∈ t.entries, names ++ way <+: entry.1 := by
  simp only [waysFrom, List.mem_cons, List.mem_flatMap, mem_waysTo_iff]

theorem FileBelow.mem_waysBelow (h : t.FileBelow names way) : way ∈ t.waysBelow names := by
  obtain ⟨content, hmem⟩ := h
  exact mem_waysBelow_iff.2 (mem_waysFrom_iff.2 (.inr ⟨_, hmem, List.prefix_rfl⟩))

theorem pairwise_waysBelow (t : Tree) (names : List String) :
    (t.waysBelow names).Pairwise VisitedBefore := by
  have hsorted : (t.waysBelow names).Pairwise fun p q =>
      (!List.lex q p fun a b => decide (a < b)) = true := by
    refine List.pairwise_mergeSort (fun p q r hpq hqr => ?_) (fun p q => ?_) _
    · rw [Bool.not_eq_true', List.lex_eq_false_iff_ge] at hpq hqr ⊢
      exact List.le_trans hpq hqr
    · rw [Bool.or_eq_true, Bool.not_eq_true', Bool.not_eq_true', List.lex_eq_false_iff_ge,
        List.lex_eq_false_iff_ge]
      exact List.le_total p q
  have hnodup : (t.waysBelow names).Nodup :=
    (List.mergeSort_perm ..).nodup_iff.2 (nodup_eraseDups _)
  refine (hsorted.and hnodup).imp fun ⟨hlex, hne⟩ => ?_
  rw [Bool.not_eq_true', List.lex_eq_false_iff_ge] at hlex
  exact visitedBefore_iff_lt.2 ((List.le_iff_lt_or_eq.1 hlex).resolve_right hne)

/-! ### Walks -/

/-- If no directory has a path that is too long, the disk walks as is expected. -/
theorem walksThrough (hpath : t.locate path = .ok (.below names))
    (henter : ∀ way ∈ t.waysBelow names, (joinPath path way.dropLast).utf8ByteSize ≤ pathLimit) :
    t.disk.WalksThrough path (t.FileBelow names) (t.waysBelow names) where
  walk_eq := by
    have hall : (t.waysBelow names).filter
        (fun way => (joinPath path way.dropLast).utf8ByteSize ≤ pathLimit) = t.waysBelow names :=
      List.filter_eq_self.2 fun way hway => decide_eq_true (henter way hway)
    simp only [disk, walk, hpath, hall]
  ordered := t.pairwise_waysBelow names
  complete _ h := h.mem_waysBelow

/-- The path of what is on the way to an entry leads there. -/
theorem WellFormed.locate_joinPath (ht : t.WellFormed)
    (hpath : t.locate path = .ok (.below names)) (hway : way ∈ t.waysBelow names)
    (hsize : (joinPath path way).utf8ByteSize ≤ pathLimit) :
    t.locate (joinPath path way) = .ok (.below (names ++ way)) := by
  rcases mem_waysFrom_iff.1 (mem_waysBelow_iff.1 hway) with rfl | ⟨⟨place, node⟩, hmem, hfront⟩
  · rwa [joinPath, List.append_nil]
  obtain ⟨hne, _, hfollow⟩ := locate_eq_ok_iff.1 hpath
  have hnames : ∀ name ∈ way, IsName name := fun name hname =>
    ht.isName _ hmem name (hfront.subset (List.mem_append_right _ hname))
  obtain ⟨lead, hlead, hjoin⟩ := exists_pathNames_joinPath path hnames
  have hdirectory : t.follow (.start path) lead = .ok (.below names) := by
    rcases hlead with hlead | hlead
    · rwa [hlead] at hfollow
    · rw [hlead] at hfollow
      exact follow_of_append_empty hfollow
  refine locate_eq_ok_iff.2 ⟨joinPath_ne_empty hne, hsize, ?_⟩
  rw [hjoin, start_joinPath hne, follow_append, hdirectory]
  exact ht.follow_of_mem hmem hfront

theorem isFile_iff : t.isFile path = true ↔ ∃ content, t.node path = .ok (.file content) := by
  rw [isFile]
  split <;> simp_all

theorem isDirectory_iff : t.isDirectory path = true ↔ t.node path = .ok .directory := by
  rw [isDirectory]
  split <;> simp_all

/-- Of what a walk comes to, just the regular files are taken for such, if their paths are
    not too long. -/
theorem WellFormed.isFile_joinPath_iff (ht : t.WellFormed)
    (hpath : t.locate path = .ok (.below names)) (hway : way ∈ t.waysBelow names)
    (hsize : (joinPath path way).utf8ByteSize ≤ pathLimit) :
    t.isFile (joinPath path way) = true ↔ t.FileBelow names way := by
  rw [isFile_iff]
  refine exists_congr fun content => ?_
  rw [node_eq_ok_iff, ht.locate_joinPath hpath hway hsize, ← ht.find?_eq_file_iff]
  constructor
  · rintro ⟨place, hplace, hfound⟩
    obtain rfl := Except.ok.inj hplace
    exact hfound
  · exact fun hfound => ⟨_, rfl, hfound⟩

theorem isFile_of_tooLong (h : pathLimit < path.utf8ByteSize) : t.isFile path = false := by
  rw [isFile, node_of_tooLong h]

/-- What is read from a file of a walk is what the tree has there. -/
theorem WellFormed.read_joinPath (ht : t.WellFormed)
    (hpath : t.locate path = .ok (.below names)) (h : (names ++ way, .file content) ∈ t.entries)
    (hsize : (joinPath path way).utf8ByteSize ≤ pathLimit) :
    t.read (joinPath path way) = content := by
  have hplace := ht.locate_joinPath hpath (FileBelow.mem_waysBelow ⟨content, h⟩) hsize
  rw [Tree.read, node_eq_ok_iff.2 ⟨_, hplace, ht.find?_of_mem h⟩]

end Tree

end GridSat
