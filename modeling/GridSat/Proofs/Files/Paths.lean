import GridSat.Files.Tree
import GridSat.Proofs.Text.Lines

/-!
# Names in paths

The path of a file below a directory (`joinPath`) has the names of the directory and
behind them those of the file (`exists_pathNames_joinPath`). It starts where the path of
the directory does, and the file has the extension of its name, in whatever directory
it is (`fileExtension?_joinPath`).
-/

namespace GridSat

/-- A name that a directory may have an entry of. -/
structure IsName (name : String) : Prop where
  ne_empty : name ≠ ""
  ne_dot : name ≠ "."
  ne_dots : name ≠ ".."
  slash_notMem : '/' ∉ name.toList
  size_le : name.utf8ByteSize ≤ nameLimit

instance (name : String) : Decidable (IsName name) :=
  decidable_of_iff (name ≠ "" ∧ name ≠ "." ∧ name ≠ ".." ∧ '/' ∉ name.toList ∧
      name.utf8ByteSize ≤ nameLimit)
    ⟨fun ⟨h₁, h₂, h₃, h₄, h₅⟩ => ⟨h₁, h₂, h₃, h₄, h₅⟩,
      fun ⟨h₁, h₂, h₃, h₄, h₅⟩ => ⟨h₁, h₂, h₃, h₄, h₅⟩⟩

variable {path : String} {rel : List String}

theorem joinPath_of_ne_nil (path : String) (hne : rel ≠ []) :
    joinPath path rel =
      path ++ (if path.toList.getLast? = some '/' then "" else "/") ++
        String.intercalate "/" rel := by
  cases rel with
  | nil => exact absurd rfl hne
  | cons name names => rfl

/-- The path of a file below a directory has the names of the directory and then
    those of the file. A slash at the end of the path of the directory has the empty
    name behind it, which is not needed any more. -/
theorem exists_pathNames_joinPath (path : String) (hnames : ∀ name ∈ rel, IsName name) :
    ∃ lead, (pathNames path = lead ∨ pathNames path = lead ++ [""]) ∧
      pathNames (joinPath path rel) = lead ++ rel := by
  by_cases hne : rel = []
  · exact ⟨pathNames path, .inl rfl, by rw [hne, joinPath, List.append_nil]⟩
  have hrel : ((['/'].intercalate (rel.map String.toList)).splitOn '/').map String.ofList = rel := by
    rw [List.splitOn_intercalate]
    · simp
    · exact List.forall_mem_map.2 fun name hmem => (hnames name hmem).slash_notMem
    · simpa using hne
  have hjoin : (joinPath path rel).toList =
      path.toList ++ (if path.toList.getLast? = some '/' then [] else ['/']) ++
        ['/'].intercalate (rel.map String.toList) := by
    rw [joinPath_of_ne_nil path hne, String.toList_append, String.toList_append,
      String.toList_intercalate]
    split <;> rfl
  rw [pathNames, pathNames, hjoin]
  split
  · next hlast =>
    obtain ⟨cs, hcs⟩ := List.getLast?_eq_some_iff.1 hlast
    refine ⟨(cs.splitOn '/').map String.ofList, .inr ?_, ?_⟩
    · rw [hcs, List.splitOn_append_cons_self, List.map_append]
      rfl
    · rw [hcs, List.append_nil, List.append_assoc, List.singleton_append,
        List.splitOn_append_cons_self, List.map_append, hrel]
  · refine ⟨_, .inl rfl, ?_⟩
    rw [List.append_assoc, List.singleton_append, List.splitOn_append_cons_self, List.map_append,
      hrel]

theorem IsName.pathNames_eq {name : String} (h : IsName name) : pathNames name = [name] := by
  have hsplit := Text.splitOn_append_of_not_mem h.slash_notMem []
  rw [List.append_nil] at hsplit
  rw [pathNames, hsplit]
  simp

/-- The extension is that of the last name. -/
theorem fileExtension?_congr {path' : String}
    (h : (pathNames path).getLast? = (pathNames path').getLast?) :
    fileExtension? path = fileExtension? path' := by
  obtain ⟨pieces, last, hpieces⟩ := Text.exists_splitOn_eq_append '/' path.toList
  obtain ⟨pieces', last', hpieces'⟩ := Text.exists_splitOn_eq_append '/' path'.toList
  rw [pathNames, pathNames, hpieces, hpieces', List.map_append, List.map_append,
    List.map_singleton, List.map_singleton, List.getLast?_concat, List.getLast?_concat] at h
  obtain rfl : last = last' := String.ofList_injective (Option.some.inj h)
  rw [fileExtension?, fileExtension?, hpieces, hpieces', List.getLastD_concat,
    List.getLastD_concat]

/-- A file has its extension from its name, whatever directory it is in. -/
theorem fileExtension?_joinPath (path : String) (rel : List String) {name : String}
    (hnames : ∀ other ∈ rel ++ [name], IsName other) :
    fileExtension? (joinPath path (rel ++ [name])) = fileExtension? name := by
  obtain ⟨lead, _, hjoin⟩ := exists_pathNames_joinPath path hnames
  have hname : IsName name := hnames name (List.mem_append_right _ List.mem_cons_self)
  refine fileExtension?_congr ?_
  rw [hjoin, hname.pathNames_eq, ← List.append_assoc, List.getLast?_concat,
    List.getLast?_singleton]

theorem start_joinPath (hne : path ≠ "") :
    Place.start (joinPath path rel) = Place.start path := by
  by_cases hrel : rel = []
  · rw [hrel, joinPath]
  obtain ⟨c, cs, hcs⟩ := List.exists_cons_of_ne_nil fun h => hne (String.toList_eq_nil_iff.1 h)
  rw [Place.start, Place.start, joinPath_of_ne_nil path hrel, String.toList_append,
    String.toList_append, hcs]
  rfl

theorem joinPath_ne_empty (hne : path ≠ "") : joinPath path rel ≠ "" := by
  by_cases hrel : rel = []
  · rwa [hrel, joinPath]
  intro h
  rw [← String.toList_eq_nil_iff, joinPath_of_ne_nil path hrel, String.toList_append,
    String.toList_append, List.append_eq_nil_iff, List.append_eq_nil_iff,
    String.toList_eq_nil_iff] at h
  exact hne h.1.1

end GridSat
