import GridSat.Proofs.Search.Choice

/-!
# Stopping at a unit clause

Going through the clauses for a shortest one, the search stops at the first unit clause that
it takes. It is compared here with a search that never stops (`Formula.scan`), by the places
at which they end up.

A search that never stops ends at the first place of a shortest clause, since this is so
after each further clause (`IsFirstShortest.scanFrom`), and there is one such place only
(`IsFirstShortest.unique`). Once a unit clause has been taken, no clause takes over but an
empty one, so that stopping there makes no difference as long as no clause is empty
(`scan_isUnit`).
-/

namespace GridSat.Formula

variable {f : Formula} {before cs : List Clause} {best : Nat × Clause} {c d : Clause} {i j : Nat}
  {stop : Clause → Bool}

/-- Goes through clauses, the first of them at place `i`, with the best clause so far and its
    place. A shorter clause takes over, and it ends the search if it passes the test `stop`. -/
def scanFrom (stop : Clause → Bool) : Nat → Nat × Clause → List Clause → Nat × Clause
  | _, best, [] => best
  | i, best, c :: cs =>
    if c.length < best.2.length then
      if stop c then (i, c) else scanFrom stop (i + 1) (i, c) cs
    else scanFrom stop (i + 1) best cs

/-- The clause that is found, with its place, if there is any clause. -/
def scan (stop : Clause → Bool) : List Clause → Option (Nat × Clause)
  | [] => none
  | c :: cs => some (if stop c then (0, c) else scanFrom stop 1 (0, c) cs)

/-! ### Places make no difference -/

theorem snd_scanFrom (i : Nat) (best : Nat × Clause) (cells : Cells Clause) :
    (scanFrom Clause.isUnit i best cells.toList).2 = shortestFrom best.2 cells := by
  induction cells generalizing i best with
  | nil => rfl
  | cons c n cells ih =>
    rw [Cells.toList_cons, scanFrom, shortestFrom]
    split
    · split
      · rfl
      · exact ih (i + 1) (i, c)
    · exact ih (i + 1) best

theorem map_snd_scan (f : Formula) :
    (scan Clause.isUnit f.toList).map Prod.snd = f.shortestClause? := by
  obtain ⟨⟨_ | ⟨c, n, cells⟩, hs⟩⟩ := f
  · rfl
  · have hlist : toList ⟨⟨.cons c n cells, hs⟩⟩ = c :: cells.toList := Cells.toList_cons ..
    rw [hlist, scan, shortestClause?, Option.map_some, apply_ite Prod.snd, snd_scanFrom]

/-! ### Stopping early -/

/-- A clause that no further one is shorter than stays the best. -/
theorem scanFrom_eq_self (h : ∀ d ∈ cs, best.2.length ≤ d.length) :
    scanFrom stop i best cs = best := by
  induction cs generalizing i with
  | nil => rfl
  | cons c cs ih =>
    rw [List.forall_mem_cons] at h
    rw [scanFrom, if_neg (Nat.not_lt.2 h.1), ih h.2]

theorem scanFrom_isUnit (hempty : .empty ∉ cs) :
    scanFrom Clause.isUnit i best cs = scanFrom (fun _ => false) i best cs := by
  induction cs generalizing i best with
  | nil => rfl
  | cons c cs ih =>
    rw [List.mem_cons, not_or] at hempty
    rw [scanFrom, scanFrom, if_neg Bool.false_ne_true]
    split
    · split
      · next hunit => exact (scanFrom_eq_self (length_le_of_isUnit hempty.2 hunit)).symm
      · exact ih hempty.2
    · exact ih hempty.2

theorem scan_isUnit (hempty : .empty ∉ cs) :
    scan Clause.isUnit cs = scan (fun _ => false) cs := by
  cases cs with
  | nil => rfl
  | cons c cs =>
    rw [List.mem_cons, not_or] at hempty
    rw [scan, scan, if_neg Bool.false_ne_true, Option.some.injEq]
    split
    · next hunit => exact (scanFrom_eq_self (length_le_of_isUnit hempty.2 hunit)).symm
    · exact scanFrom_isUnit hempty.2

/-! ### The first place of a shortest clause -/

/-- The clause stands at place `i`, no clause is shorter, and all before it are longer. -/
structure IsFirstShortest (cs : List Clause) (i : Nat) (c : Clause) : Prop where
  getElem?_eq : cs[i]? = some c
  length_le : ∀ d ∈ cs, c.length ≤ d.length
  length_lt : ∀ d ∈ cs.take i, c.length < d.length

namespace IsFirstShortest

theorem lt_length (h : IsFirstShortest cs i c) : i < cs.length :=
  (List.getElem?_eq_some_iff.1 h.getElem?_eq).1

theorem singleton (c : Clause) : IsFirstShortest [c] 0 c where
  getElem?_eq := rfl
  length_le := List.forall_mem_singleton.2 (Nat.le_refl _)
  length_lt := nofun

/-- A further clause that is not shorter changes nothing. -/
theorem concat_of_le (h : IsFirstShortest cs i c) (hle : c.length ≤ d.length) :
    IsFirstShortest (cs ++ [d]) i c where
  getElem?_eq := (List.getElem?_append_left h.lt_length).trans h.getElem?_eq
  length_le := List.forall_mem_append.2 ⟨h.length_le, List.forall_mem_singleton.2 hle⟩
  length_lt := by
    rw [List.take_append_of_le_length (Nat.le_of_lt h.lt_length)]
    exact h.length_lt

/-- A further clause that is shorter takes over, at its place. -/
theorem concat_of_lt (h : IsFirstShortest cs i c) (hlt : d.length < c.length) :
    IsFirstShortest (cs ++ [d]) cs.length d where
  getElem?_eq := List.getElem?_concat_length
  length_le := by
    refine List.forall_mem_append.2 ⟨fun e he => ?_, List.forall_mem_singleton.2 (Nat.le_refl _)⟩
    exact Nat.le_of_lt (Nat.lt_of_lt_of_le hlt (h.length_le e he))
  length_lt := by
    rw [List.take_left']
    · exact fun e he => Nat.lt_of_lt_of_le hlt (h.length_le e he)
    · rfl

/-- A search that does not stop keeps the first shortest of the clauses it has seen. -/
theorem scanFrom (best : Nat × Clause) (h : IsFirstShortest before best.1 best.2)
    (cs : List Clause) :
    IsFirstShortest (before ++ cs) (scanFrom (fun _ => false) before.length best cs).1
      (scanFrom (fun _ => false) before.length best cs).2 := by
  induction cs generalizing before best with
  | nil => rwa [List.append_nil]
  | cons c cs ih =>
    have hnext : before.length + 1 = (before ++ [c]).length := by simp
    rw [List.append_cons, Formula.scanFrom, if_neg Bool.false_ne_true, hnext]
    split
    · next hlt => exact ih _ (h.concat_of_lt hlt)
    · next hge => exact ih _ (h.concat_of_le (Nat.le_of_not_lt hge))

theorem not_lt (h : IsFirstShortest cs i c) (h' : IsFirstShortest cs j d) : ¬i < j := by
  intro hlt
  have hmem : c ∈ cs.take j :=
    List.mem_of_getElem? ((List.getElem?_take_of_lt hlt).trans h.getElem?_eq)
  have hle := h.length_le d (List.mem_of_getElem? h'.getElem?_eq)
  exact Nat.not_lt.2 hle (h'.length_lt c hmem)

theorem unique (h : IsFirstShortest cs i c) (h' : IsFirstShortest cs j d) : i = j ∧ c = d := by
  obtain rfl : i = j := Nat.le_antisymm (Nat.not_lt.1 (h'.not_lt h)) (Nat.not_lt.1 (h.not_lt h'))
  exact ⟨rfl, Option.some.inj (h.getElem?_eq.symm.trans h'.getElem?_eq)⟩

end IsFirstShortest

theorem scan_eq_some_iff : scan (fun _ => false) cs = some (i, c) ↔ IsFirstShortest cs i c := by
  cases cs with
  | nil => exact iff_of_false nofun fun h => absurd h.getElem?_eq nofun
  | cons d cs =>
    have hfound : IsFirstShortest (d :: cs) (Formula.scanFrom (fun _ => false) 1 (0, d) cs).1
        (Formula.scanFrom (fun _ => false) 1 (0, d) cs).2 :=
      .scanFrom (0, d) (.singleton d) cs
    rw [scan, if_neg Bool.false_ne_true, Option.some.injEq]
    constructor
    · intro h
      rwa [h] at hfound
    · intro h
      obtain ⟨hi, hc⟩ := hfound.unique h
      exact Prod.ext hi hc

/-! ### The literal that is taken -/

/-- The first literal of the clause that is found is taken, and it is forced if there is no
    other. -/
theorem exists_move_of_shortestClause? (hempty : .empty ∉ f.toList)
    (h : f.shortestClause? = some c) : ∃ l, c.toList.head? = some l ∧
      f.move = if c.toList.length = 1 then .force l else .branch l := by
  have hnil : f.toList ≠ [] := List.ne_nil_of_mem (mem_of_shortestClause? h)
  rw [shortestClause?_eq_some_shortest hnil hempty, Option.some.injEq] at h
  refine ⟨f.pick hnil hempty, ?_, ?_⟩
  · rw [← h]
    exact List.head?_eq_some_head _
  · rw [move_eq_of_ne_nil hnil hempty, ← h, Clause.length_toList]

/-- Unless a clause is empty, the search finds the clause at the first place such that no
    clause is shorter and all earlier ones are longer. This is the place at which it would
    end up without stopping at a unit clause. It takes the first literal of the clause, which
    is forced exactly if the clause is a unit. -/
theorem early_stop_finds_first_shortest (hempty : .empty ∉ f.toList) :
    (f.shortestClause? = none ↔ f.toList = []) ∧
    f.shortestClause? = (scan Clause.isUnit f.toList).map Prod.snd ∧
    scan Clause.isUnit f.toList = scan (fun _ => false) f.toList ∧
    (∀ i c, scan Clause.isUnit f.toList = some (i, c) ↔ IsFirstShortest f.toList i c) ∧
    ∀ c, f.shortestClause? = some c → ∃ l, c.toList.head? = some l ∧
      f.move = if c.toList.length = 1 then .force l else .branch l := by
  refine ⟨?_, (map_snd_scan f).symm, scan_isUnit hempty, fun i c => ?_,
    fun c => exists_move_of_shortestClause? hempty⟩
  · rw [← map_snd_scan, Option.map_eq_none_iff]
    cases f.toList <;> simp [scan]
  · rw [scan_isUnit hempty, scan_eq_some_iff]

/-- Two unit clauses behind a longer clause. -/
def twoUnits : Formula :=
  .ofList [.ofList [.named "x", .named "y"], .singleton (.named "z"), .singleton (.named "x")]

theorem early_stop_finds_first_shortest_twoUnits :
    .empty ∉ twoUnits.toList ∧
    scan (fun _ => false) twoUnits.toList = some (1, .singleton (.named "z")) ∧
    twoUnits.shortestClause? = some (.singleton (.named "z")) ∧
    twoUnits.move = .force (.named "z") := by
  have hempty : .empty ∉ twoUnits.toList := by decide
  obtain ⟨_, hscan, hsame, hplace, hmove⟩ := early_stop_finds_first_shortest hempty
  have hfound : scan Clause.isUnit twoUnits.toList = some (1, .singleton (.named "z")) :=
    (hplace 1 _).2 ⟨rfl, by decide, by decide⟩
  rw [hfound] at hscan hsame
  obtain ⟨l, hl, hforced⟩ := hmove _ hscan
  obtain rfl : .named "z" = l := Option.some.inj hl
  exact ⟨hempty, hsame.symm, hscan, hforced⟩

/-- An empty clause behind a unit clause is missed by stopping early. -/
example : scan Clause.isUnit [.singleton (.named "x"), .empty] ≠
    scan (fun _ => false) [.singleton (.named "x"), .empty] := by
  decide

end GridSat.Formula
