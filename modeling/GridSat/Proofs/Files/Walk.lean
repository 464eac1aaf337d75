import GridSat.Files.Disk

/-!
# Walks through directories

A *way* is the names that lead from a directory to something below it; no names lead
to the directory itself. A walk that goes depth first, and by name within each
directory, visits ways in an order of their own (`VisitedBefore`), which is the
lexicographic one (`visitedBefore_iff_lt`).

How a disk walks is up to the system. What is expected of it is stated as
`Disk.WalksThrough`: it meets no errors, keeps the order, and leaves out no regular
file. Where looking at the paths of the walk tells the regular files from the rest, those
that pass for files are then all regular files, in order
(`Disk.WalksThrough.inWalkOrder_filter`).
-/

namespace GridSat

/-! ### The order of a walk -/

/-- A walk that goes depth first, and by name within each directory, comes to the one
    way before it comes to the other. -/
inductive VisitedBefore : List String → List String → Prop
  /-- A directory comes before what is in it. -/
  | inside (way : List String) (name : String) (rest : List String) :
      VisitedBefore way (way ++ name :: rest)
  /-- Where two ways part, the one that goes on to the lesser name comes first. -/
  | aside (way : List String) {name name' : String} (h : name < name') (rest rest' : List String) :
      VisitedBefore (way ++ name :: rest) (way ++ name' :: rest')

variable {p q way : List String} {P : List String → Prop}

theorem VisitedBefore.cons (name : String) (h : VisitedBefore p q) :
    VisitedBefore (name :: p) (name :: q) := by
  cases h with
  | inside _ name' rest => exact .inside (name :: p) name' rest
  | aside way h rest rest' => exact .aside (name :: way) h rest rest'

theorem visitedBefore_iff_lt : VisitedBefore p q ↔ p < q := by
  constructor
  · intro h
    cases h with
    | inside _ name rest =>
      have hlt : p ++ [] < p ++ name :: rest := List.append_left_lt .nil
      rwa [List.append_nil] at hlt
    | aside way h rest rest' => exact List.append_left_lt (.rel h)
  · intro h
    induction h with
    | nil => exact .inside [] _ _
    | rel h => exact .aside [] h _ _
    | cons _ ih => exact ih.cons _

theorem VisitedBefore.asymm (h : VisitedBefore p q) : ¬VisitedBefore q p := by
  rw [visitedBefore_iff_lt] at h ⊢
  exact List.lt_asymm h

/-- All the ways for which `P` holds, each of them once, in the order of a walk. -/
structure InWalkOrder (P : List String → Prop) (ways : List (List String)) : Prop where
  ordered : ways.Pairwise VisitedBefore
  mem_iff : ∀ way, way ∈ ways ↔ P way

/-- The order leaves no choice. -/
theorem InWalkOrder.unique {ways ways' : List (List String)} (h : InWalkOrder P ways)
    (h' : InWalkOrder P ways') : ways = ways' := by
  have hnodup {l : List (List String)} (hl : l.Pairwise VisitedBefore) : l.Nodup :=
    hl.imp fun hpq => by
      rintro rfl
      exact hpq.asymm hpq
  have hperm : ways.Perm ways' := (List.perm_ext_iff_of_nodup (hnodup h.ordered)
    (hnodup h'.ordered)).2 fun way => (h.mem_iff way).trans (h'.mem_iff way).symm
  exact hperm.eq_of_pairwise (fun _ _ _ _ hpq hqp => absurd hqp hpq.asymm) h.ordered h'.ordered

/-- What stands in front of a way in this order is what is visited before it. -/
theorem InWalkOrder.of_append_cons {before after : List (List String)}
    (h : InWalkOrder P (before ++ way :: after)) :
    InWalkOrder (fun earlier => P earlier ∧ VisitedBefore earlier way) before := by
  obtain ⟨hbefore, hrest, hcross⟩ := List.pairwise_append.1 h.ordered
  refine ⟨hbefore, fun earlier => ⟨fun hmem => ?_, fun ⟨hP, hearlier⟩ => ?_⟩⟩
  · exact ⟨(h.mem_iff _).1 (List.mem_append_left _ hmem), hcross _ hmem _ List.mem_cons_self⟩
  · rcases List.mem_append.1 ((h.mem_iff _).2 hP) with hmem | hmem
    · exact hmem
    · rcases List.mem_cons.1 hmem with rfl | hafter
      · exact absurd hearlier hearlier.asymm
      · exact absurd ((List.pairwise_cons.1 hrest).1 _ hafter) hearlier.asymm

/-! ### What a walk is expected to do -/

/-- The walk through a directory goes `ways`, and does so as a walk should. Here `Regular`
    holds of the ways that lead to regular files. -/
structure Disk.WalksThrough (disk : Disk) (path : String) (Regular : List String → Prop)
    (ways : List (List String)) : Prop where
  /-- It gives paths that go on from that of the directory, and nothing else. -/
  walk_eq : disk.walk path = ways.map (joinPath path)
  /-- It goes depth first, and by name within each directory. -/
  ordered : ways.Pairwise VisitedBefore
  /-- It comes to every regular file. -/
  complete : ∀ way, Regular way → way ∈ ways

namespace Disk.WalksThrough

variable {disk : Disk} {path : String} {Regular : List String → Prop} {ways : List (List String)}

theorem filter_walk (h : disk.WalksThrough path Regular ways) :
    (disk.walk path).filter disk.isFile =
      (ways.filter fun way => disk.isFile (joinPath path way)).map (joinPath path) := by
  rw [h.walk_eq, List.filter_map]
  rfl

theorem inWalkOrder_filter (h : disk.WalksThrough path Regular ways)
    (hlook : ∀ way ∈ ways, disk.isFile (joinPath path way) = true ↔ Regular way) :
    InWalkOrder Regular (ways.filter fun way => disk.isFile (joinPath path way)) := by
  refine ⟨h.ordered.filter _, fun way => ?_⟩
  rw [List.mem_filter]
  exact ⟨fun ⟨hmem, hfile⟩ => (hlook way hmem).1 hfile,
    fun hway => ⟨h.complete way hway, (hlook way (h.complete way hway)).2 hway⟩⟩

end Disk.WalksThrough

end GridSat
