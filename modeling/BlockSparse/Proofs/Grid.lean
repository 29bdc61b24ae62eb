import BlockSparse.Grid
import BlockSparse.Proofs.Traversal

/-! The cells of a grid by row and column. In a well-formed grid the numbering of the cells agrees
with their places, so the list of cells can be read row after row. A well-formed grid is determined
by its cells, and its transpose has each of them at the place turned round. -/
namespace BlockSparse.Grid
variable {α β : Type} {g : Grid α} {i j : Nat}

lemma wellFormed_of_length_eq {cells : List β} (hg : g.WellFormed)
    (h : cells.length = g.cells.length) : (mk g.numRows g.numCols cells).WellFormed := h.trans hg

lemma length_entries (g : Grid α) : g.entries.length = g.cells.length := by
  simp [entries]

lemma wellFormed_mapIdx (hg : g.WellFormed) (f : Nat → Nat → α → β) :
    (g.mapIdx f).WellFormed := by
  apply wellFormed_of_length_eq hg
  rw [List.length_map, length_entries]

lemma get?_eq_some_iff {x : α} :
    g.get? i j = some x ↔ i < g.numRows ∧ j < g.numCols ∧ g.cells[i * g.numCols + j]? = some x := by
  unfold get?
  split
  · rename_i h
    simp [h]
  · rename_i h
    simp only [reduceCtorEq, false_iff]
    exact fun h' => h ⟨h'.1, h'.2.1⟩

/-- A well-formed grid has a cell at every place that it spans. -/
lemma exists_get? (hg : g.WellFormed) (hi : i < g.numRows) (hj : j < g.numCols) :
    ∃ x, g.get? i j = some x := Option.isSome_iff_exists.1 ((isSome_get?_iff hg).2 ⟨hi, hj⟩)

/-- Where one grid has a cell, a well-formed grid of the same size has one. -/
lemma exists_get?_of_size_eq {g' : Grid β} (hg' : g'.WellFormed) (hrows : g'.numRows = g.numRows)
    (hcols : g'.numCols = g.numCols) {x : α} (hx : g.get? i j = some x) :
    ∃ y, g'.get? i j = some y := by
  obtain ⟨hi, hj, _⟩ := get?_eq_some_iff.1 hx
  exact exists_get? hg' (hrows.symm ▸ hi) (hcols.symm ▸ hj)

lemma getElem?_entries (g : Grid α) (k : Nat) :
    g.entries[k]? = g.cells[k]?.map fun x => (k / g.numCols, k % g.numCols, x) := by
  rw [entries, List.getElem?_map, List.getElem?_zipIdx]
  cases g.cells[k]? <;> simp

lemma map_entries (f : α → β) (g : Grid α) :
    (g.entries.map fun p => f p.2.2) = g.cells.map f := by
  rw [entries, List.map_map]
  nth_rewrite 2 [← List.zipIdx_map_fst 0 g.cells]
  rw [List.map_map]
  rfl

lemma getElem?_rows (hi : i < g.numRows) : g.rows[i]? = some (g.blockRow i) := by
  simp [rows, hi]

lemma mem_zipIdx_rows_iff {row : List α} :
    (row, i) ∈ g.rows.zipIdx ↔ i < g.numRows ∧ row = g.blockRow i := by
  rw [List.mem_zipIdx_iff_getElem?]
  by_cases hi : i < g.numRows
  · simp [rows, hi, eq_comm]
  · simp [rows, hi]

lemma index_div_mod {n : Nat} (h : j < n) : (i * n + j) / n = i ∧ (i * n + j) % n = j := by
  rw [Nat.mul_comm, Nat.mul_add_div (by omega), Nat.div_eq_of_lt h, Nat.mul_add_mod,
    Nat.mod_eq_of_lt h]
  exact ⟨rfl, rfl⟩

/-- The entries of a well-formed grid are its cells at their places. -/
theorem mem_entries_iff (hg : g.WellFormed) {x : α} :
    (i, j, x) ∈ g.entries ↔ g.get? i j = some x := by
  rw [get?_eq_some_iff, List.mem_iff_getElem?]
  constructor
  · rintro ⟨k, hk⟩
    rw [getElem?_entries, Option.map_eq_some_iff] at hk
    obtain ⟨y, hy, h⟩ := hk
    cases h
    have hlt : k < g.numRows * g.numCols := hg ▸ (List.getElem?_eq_some_iff.1 hy).1
    have hpos : 0 < g.numCols := Nat.pos_of_ne_zero fun h0 => by simp [h0] at hlt
    refine ⟨Nat.div_lt_of_lt_mul (Nat.mul_comm .. ▸ hlt), Nat.mod_lt k hpos, ?_⟩
    rw [Nat.mul_comm, Nat.div_add_mod, hy]
  · rintro ⟨hi, hj, hx⟩
    obtain ⟨hdiv, hmod⟩ := index_div_mod (i := i) hj
    exact ⟨i * g.numCols + j, by rw [getElem?_entries, hx, hdiv, hmod]; rfl⟩

/-- The cells of a well-formed grid are what stands at its places. -/
lemma mem_cells_iff (hg : g.WellFormed) {x : α} : x ∈ g.cells ↔ ∃ i j, g.get? i j = some x := by
  constructor
  · intro h
    have hmap := map_entries id g
    rw [List.map_id] at hmap
    rw [← hmap] at h
    obtain ⟨⟨i, j, y⟩, hmem, rfl⟩ := List.mem_map.1 h
    exact ⟨i, j, (mem_entries_iff hg).1 hmem⟩
  · rintro ⟨i, j, hx⟩
    exact List.mem_of_getElem? (get?_eq_some_iff.1 hx).2.2

lemma zipIdx_flatten {n : Nat} {rows : List (List α)} (h : ∀ row ∈ rows, row.length = n)
    (k : Nat) :
    ((rows.flatten.zipIdx (k * n)).map fun (x, l) => (l / n, l % n, x)) =
      (rows.zipIdx k).flatMap fun (row, i) => row.zipIdx.map fun (x, j) => (i, j, x) := by
  induction rows generalizing k with
  | nil => rfl
  | cons row rows ih =>
    have hrow : row.length = n := h row List.mem_cons_self
    -- the numbering goes on behind the row, at the start of the next one
    have hrest := ih (fun r hr => h r (List.mem_cons_of_mem _ hr)) (k + 1)
    rw [List.flatten_cons, List.zipIdx_append, List.map_append, List.zipIdx_cons,
      List.flatMap_cons, hrow, ← Nat.succ_mul, hrest]
    congr 1
    rw [List.zipIdx_eq_map_add, List.map_map]
    apply List.map_congr_left
    rintro ⟨x, j⟩ hx
    have hj : j < n := by
      have := (List.mem_zipIdx hx).2.1
      omega
    obtain ⟨hdiv, hmod⟩ := index_div_mod (i := k) hj
    simp [hdiv, hmod]

lemma flatten_chunks (nr nc : Nat) {cells : List α} (h : cells.length = nr * nc) :
    ((List.range nr).map fun i => (cells.drop (i * nc)).take nc).flatten = cells := by
  induction nr generalizing cells with
  | zero => simpa [eq_comm] using h
  | succ nr ih =>
    rw [Nat.succ_mul] at h
    have hlen : (cells.drop nc).length = nr * nc := by
      rw [List.length_drop]
      omega
    have hrest := ih hlen
    simp only [List.drop_drop] at hrest
    rw [List.range_succ_eq_map, List.map_cons, List.flatten_cons, List.map_map]
    simp only [Function.comp_def, Nat.succ_mul, Nat.zero_mul, List.drop_zero]
    simp only [Nat.add_comm _ nc]
    rw [hrest, List.take_append_drop]

lemma flatten_rows (hg : g.WellFormed) : g.rows.flatten = g.cells :=
  flatten_chunks g.numRows g.numCols hg

/-- The entries of a well-formed grid, read row after row. -/
theorem entries_eq (hg : g.WellFormed) : g.entries =
    g.rows.zipIdx.flatMap fun (row, i) => row.zipIdx.map fun (x, j) => (i, j, x) := by
  have hlen : ∀ row ∈ g.rows, row.length = g.numCols := by
    intro row hrow
    obtain ⟨i, hi, rfl⟩ := List.mem_map.1 hrow
    exact length_blockRow hg (List.mem_range.1 hi)
  have h := zipIdx_flatten hlen 0
  rwa [flatten_rows hg, Nat.zero_mul] at h

lemma get?_mapIdx (f : Nat → Nat → α → β) (g : Grid α) (i j : Nat) :
    (g.mapIdx f).get? i j = (g.get? i j).map (f i j) := by
  unfold get?
  by_cases hij : i < g.numRows ∧ j < g.numCols
  · obtain ⟨hdiv, hmod⟩ := index_div_mod (i := i) hij.2
    simp only [mapIdx, hij, and_self, if_true, List.getElem?_map, getElem?_entries, hdiv, hmod,
      Option.map_map]
    rfl
  · simp only [mapIdx, hij, if_false, Option.map_none]

/-- Where the function does not depend on the column, it is applied along each row. -/
lemma blockRow_mapIdx (f : Nat → α → β) (hi : i < g.numRows) :
    (g.mapIdx fun i _ x => f i x).blockRow i = (g.blockRow i).map (f i) := by
  apply List.ext_getElem?
  intro j
  refine (getElem?_blockRow (g.mapIdx fun i _ x => f i x) hi).trans ?_
  rw [get?_mapIdx, List.getElem?_map, getElem?_blockRow _ hi]

section Rows

lemma getElem?_flatten_of_forall {n : Nat} {rows : List (List α)}
    (h : ∀ row ∈ rows, row.length = n) (i : Nat) (hj : j < n) :
    rows.flatten[i * n + j]? = rows[i]?.bind (·[j]?) := by
  induction rows generalizing i with
  | nil => rfl
  | cons row rows ih =>
    have hrow : row.length = n := h row List.mem_cons_self
    cases i with
    | zero =>
      have hlt : j < row.length := hrow ▸ hj
      simp [List.getElem?_append_left hlt]
    | succ i =>
      have hrest := ih (fun r hr => h r (List.mem_cons_of_mem row hr)) i
      have hk : (i + 1) * n + j = row.length + (i * n + j) := by
        rw [hrow, Nat.succ_mul]
        omega
      rw [List.flatten_cons, hk, List.getElem?_append_right (Nat.le_add_right ..),
        Nat.add_sub_cancel_left, hrest]
      rfl

/-- A grid that is given by its rows has their entries as its cells. -/
lemma get?_flatten {n : Nat} {rows : List (List α)} (h : ∀ row ∈ rows, row.length = n)
    (i j : Nat) : (mk rows.length n rows.flatten).get? i j = rows[i]?.bind (·[j]?) := by
  by_cases hj : j < n
  · rw [← getElem?_flatten_of_forall h i hj]
    by_cases hi : i < rows.length
    · exact if_pos ⟨hi, hj⟩
    · rw [getElem?_flatten_of_forall h i hj, List.getElem?_eq_none (Nat.le_of_not_lt hi)]
      exact if_neg fun hij => hi hij.1
  · cases hi : rows[i]? with
    | none => exact if_neg fun hij => hj hij.2
    | some row =>
      have hrow : row.length ≤ j := h row (List.mem_of_getElem? hi) ▸ Nat.le_of_not_lt hj
      rw [Option.bind_some, List.getElem?_eq_none hrow]
      exact if_neg fun hij => hj hij.2

/-- Well-formed grids of one size that have the same cells are equal. -/
theorem ext_get? {g' : Grid α} (hg : g.WellFormed) (hg' : g'.WellFormed)
    (hrows : g.numRows = g'.numRows) (hcols : g.numCols = g'.numCols)
    (h : ∀ i j, g.get? i j = g'.get? i j) : g = g' := by
  obtain ⟨nr, nc, cells⟩ := g
  obtain ⟨nr', nc', cells'⟩ := g'
  cases hrows
  cases hcols
  have hlen : cells.length = nr * nc := hg
  have hlen' : cells'.length = nr * nc := hg'
  refine congrArg (mk nr nc) (List.ext_getElem? fun k => ?_)
  by_cases hk : k < nr * nc
  · have hpos : 0 < nc := Nat.pos_of_ne_zero fun h0 => by simp [h0] at hk
    have hi : k / nc < nr := Nat.div_lt_of_lt_mul (Nat.mul_comm .. ▸ hk)
    have hplace := h (k / nc) (k % nc)
    simpa [get?, hi, Nat.mod_lt k hpos, Nat.div_add_mod'] using hplace
  · rw [List.getElem?_eq_none (by omega), List.getElem?_eq_none (by omega)]

end Rows

section Columns

/-- Where the values of a function end with the first one missing, they are collected in their
order. -/
lemma getElem?_filterMap_range {f : Nat → Option β} {n : Nat} (hend : ∀ i, n ≤ i → f i = none)
    (hgap : ∀ i, f i = none → f (i + 1) = none) (i : Nat) :
    ((List.range n).filterMap f)[i]? = f i := by
  induction n generalizing f i with
  | zero => exact (hend i (Nat.zero_le i)).symm
  | succ n ih =>
    have hrest := ih (f := fun i => f (i + 1)) (fun i hi => hend _ (Nat.succ_le_succ hi))
      fun i => hgap (i + 1)
    rw [List.range_succ_eq_map, List.filterMap_cons, List.filterMap_map]
    cases hzero : f 0 with
    | none =>
      have hnone : ∀ k, f k = none := fun k => Nat.rec hzero hgap k
      simp [hnone]
    | some x =>
      cases i with
      | zero => exact hzero.symm
      | succ i => exact hrest i

/-- The walk through a well-formed grid meets the cells at its steps, whichever cell it starts
from. -/
lemma getElem?_blockCol_walk (hg : g.WellFormed) (i j : Nat) :
    (g.blockCol j)[i]? = g.cells[i * g.numCols + j]? := by
  refine getElem?_filterMap_range (fun i hi => ?_) (fun i hi => ?_) i
  · have hmul := Nat.mul_le_mul_right g.numCols hi
    rw [List.getElem?_eq_none_iff, hg]
    omega
  · rw [List.getElem?_eq_none_iff] at hi ⊢
    rw [Nat.succ_mul]
    omega

/-- A column lists the cells at its places from top to bottom. -/
lemma getElem?_blockCol (hg : g.WellFormed) (hj : j < g.numCols) :
    (g.blockCol j)[i]? = g.get? i j := by
  rw [getElem?_blockCol_walk hg, get?]
  by_cases hi : i < g.numRows
  · rw [if_pos ⟨hi, hj⟩]
  · have hmul := Nat.mul_le_mul_right g.numCols (Nat.le_of_not_lt hi)
    rw [if_neg fun hij => hi hij.1, List.getElem?_eq_none_iff, hg]
    omega

/-- Every column of a well-formed grid has a cell for each row. -/
lemma length_blockCol (hg : g.WellFormed) (hj : j < g.numCols) :
    (g.blockCol j).length = g.numRows := by
  have hle : ∀ i, (g.blockCol j).length ≤ i ↔ g.numRows ≤ i := by
    intro i
    rw [← List.getElem?_eq_none_iff, getElem?_blockCol hg hj, ← Option.not_isSome_iff_eq_none,
      isSome_get?_iff hg, and_iff_left hj, Nat.not_lt]
  exact Nat.le_antisymm ((hle _).2 (Nat.le_refl _)) ((hle _).1 (Nat.le_refl _))

/-- The elements of a list that are met by passing over the first `skip`, taking the next one and
going on in steps of the given length. -/
def stride (step : Nat) : Nat → List α → List α
  | _, [] => []
  | 0, x :: xs => x :: stride step (step - 1) xs
  | skip + 1, _ :: xs => stride step skip xs

lemma getElem?_stride {step : Nat} (hstep : 0 < step) (skip : Nat) (xs : List α) (i : Nat) :
    (stride step skip xs)[i]? = xs[skip + i * step]? := by
  induction xs generalizing skip i with
  | nil => simp [stride]
  | cons x xs ih =>
    cases skip with
    | zero =>
      cases i with
      | zero => simp [stride]
      | succ i =>
        have hplace : 0 + (i + 1) * step = (step - 1 + i * step) + 1 := by
          rw [Nat.succ_mul]
          omega
        rw [stride, List.getElem?_cons_succ, ih, hplace, List.getElem?_cons_succ]
    | succ skip =>
      rw [stride, ih, Nat.add_right_comm, List.getElem?_cons_succ]

/-- The walk takes steps of one row, or of one cell where rows have no cells. -/
lemma blockCol_eq_stride_max (hg : g.WellFormed) (j : Nat) :
    g.blockCol j = stride (max g.numCols 1) j g.cells := by
  apply List.ext_getElem?
  intro i
  rw [getElem?_blockCol_walk hg, getElem?_stride (by omega), Nat.add_comm j]
  by_cases hpos : 1 ≤ g.numCols
  · rw [Nat.max_eq_left hpos]
  · have hempty : g.cells = [] := by
      rw [← List.length_eq_zero_iff, hg, Nat.eq_zero_of_not_pos hpos, Nat.mul_zero]
    rw [hempty, List.getElem?_nil, List.getElem?_nil]

/-- A column is met by stepping through the cells, one row at a time. -/
lemma blockCol_eq_stride (hg : g.WellFormed) (hj : j < g.numCols) :
    g.blockCol j = stride g.numCols j g.cells := by
  rw [blockCol_eq_stride_max hg, Nat.max_eq_left (Nat.zero_lt_of_lt hj)]

/-- The grid whose rows are the columns of another one. -/
def transpose (g : Grid α) : Grid α :=
  ⟨g.numCols, g.numRows, ((List.range g.numCols).map g.blockCol).flatten⟩

lemma length_of_mem_columns (hg : g.WellFormed) :
    ∀ col ∈ (List.range g.numCols).map g.blockCol, col.length = g.numRows := by
  intro col hcol
  obtain ⟨j, hj, rfl⟩ := List.mem_map.1 hcol
  exact length_blockCol hg (List.mem_range.1 hj)

lemma wellFormed_transpose (hg : g.WellFormed) : g.transpose.WellFormed := by
  have hlen := length_flatten_of_forall (length_of_mem_columns hg)
  rwa [List.length_map, List.length_range] at hlen

/-- The transpose has each cell at the place turned round. -/
theorem get?_transpose (hg : g.WellFormed) (i j : Nat) : g.transpose.get? j i = g.get? i j := by
  have hrows := get?_flatten (length_of_mem_columns hg) j i
  rw [List.length_map, List.length_range] at hrows
  refine hrows.trans ?_
  by_cases hj : j < g.numCols
  · simp [hj, getElem?_blockCol hg hj]
  · rw [List.getElem?_eq_none (by simpa using hj), get?, if_neg fun hij => hj hij.2]
    rfl

end Columns

section Traverse
variable {f : Nat → Nat → α → Except Error β} {g' : Grid β}

lemma traverse_eq_ok_iff : g.traverse f = .ok g' ↔ ∃ cells,
    g.entries.mapM (fun (i, j, x) => f i j x) = .ok cells ∧ g' = ⟨g.numRows, g.numCols, cells⟩ := by
  rw [traverse, Traversal.bind_eq_ok_iff]
  simp only [pure, Except.pure, Except.ok.injEq, eq_comm]

/-- A traversal fails exactly with the first failure among its visits. -/
lemma traverse_eq_error_iff {e : Error} : g.traverse f = .error e ↔
    First (fun (p : Nat × Nat × α) e => f p.1 p.2.1 p.2.2 = .error e) g.entries e := by
  rw [traverse, Traversal.bind_eq_error_iff, Traversal.mapM_eq_error_iff]
  constructor
  · rintro (h | ⟨cells, _, h⟩)
    · exact h
    · cases h
  · exact .inl

lemma size_of_traverse (h : g.traverse f = .ok g') :
    g'.numRows = g.numRows ∧ g'.numCols = g.numCols := by
  obtain ⟨cells, _, rfl⟩ := traverse_eq_ok_iff.1 h
  exact ⟨rfl, rfl⟩

lemma wellFormed_of_traverse (hg : g.WellFormed) (h : g.traverse f = .ok g') :
    g'.WellFormed := by
  obtain ⟨cells, hcells, rfl⟩ := traverse_eq_ok_iff.1 h
  have hlen := (Traversal.mapM_eq_ok_iff.1 hcells).length_eq
  rw [length_entries] at hlen
  exact wellFormed_of_length_eq hg hlen.symm

/-- Place by place, a traversal gives what its visits give. -/
theorem get?_of_traverse (h : g.traverse f = .ok g') (i j : Nat) :
    (g.get? i j).map (f i j) = (g'.get? i j).map .ok := by
  obtain ⟨cells, hcells, rfl⟩ := traverse_eq_ok_iff.1 h
  unfold get?
  by_cases hij : i < g.numRows ∧ j < g.numCols
  · have hk := Traversal.getElem?_of_mapM_eq_ok hcells (i * g.numCols + j)
    obtain ⟨hdiv, hmod⟩ := index_div_mod (i := i) hij.2
    rw [getElem?_entries, Option.map_map, hdiv, hmod] at hk
    rw [if_pos hij, if_pos hij]
    exact hk
  · simp only [hij, if_false, Option.map_none]

lemma exists_of_traverse_left (h : g.traverse f = .ok g') {x : α} (hx : g.get? i j = some x) :
    ∃ y, g'.get? i j = some y ∧ f i j x = .ok y := by
  have hxy := get?_of_traverse h i j
  rw [hx, Option.map_some, eq_comm, Option.map_eq_some_iff] at hxy
  obtain ⟨y, hy, hfx⟩ := hxy
  exact ⟨y, hy, hfx.symm⟩

lemma exists_of_traverse_right (h : g.traverse f = .ok g') {y : β} (hy : g'.get? i j = some y) :
    ∃ x, g.get? i j = some x ∧ f i j x = .ok y := by
  have hxy := get?_of_traverse h i j
  rwa [hy, Option.map_some, Option.map_eq_some_iff] at hxy

lemma traverse_eq_ok_of_forall (hg : g.WellFormed) {f' : Nat → Nat → α → β}
    (h : ∀ i j x, g.get? i j = some x → f i j x = .ok (f' i j x)) :
    g.traverse f = .ok (g.mapIdx f') := by
  refine traverse_eq_ok_iff.2 ⟨_, Traversal.mapM_eq_ok_of_forall ?_, rfl⟩
  rintro ⟨i, j, x⟩ hmem
  exact h i j x ((mem_entries_iff hg).1 hmem)

/-- A grid of the right size that has, at each place, what the visit there gives is what the
traversal gives. -/
lemma traverse_eq_ok_of_get? (hg : g.WellFormed) (hg' : g'.WellFormed)
    (hrows : g'.numRows = g.numRows) (hcols : g'.numCols = g.numCols)
    (h : ∀ i j x y, g.get? i j = some x → g'.get? i j = some y → f i j x = .ok y) :
    g.traverse f = .ok g' := by
  have hvisit : ∀ i j x, g.get? i j = some x → ∃ y, g'.get? i j = some y ∧ f i j x = .ok y := by
    intro i j x hx
    obtain ⟨y, hy⟩ := exists_get?_of_size_eq hg' hrows hcols hx
    exact ⟨y, hy, h i j x y hx hy⟩
  cases htraverse : g.traverse f with
  | error e =>
    obtain ⟨⟨i, j, x⟩, hmem, herr⟩ := (traverse_eq_error_iff.1 htraverse).mem
    obtain ⟨y, _, hy⟩ := hvisit i j x ((mem_entries_iff hg).1 hmem)
    cases herr.symm.trans hy
  | ok g'' =>
    obtain ⟨hrows', hcols'⟩ := size_of_traverse htraverse
    refine congrArg _ (ext_get? (wellFormed_of_traverse hg htraverse) hg' (hrows'.trans hrows.symm)
      (hcols'.trans hcols.symm) fun i j => ?_)
    have hplace := get?_of_traverse htraverse i j
    cases hx : g.get? i j with
    | none =>
      rw [hx] at hplace
      rw [Option.map_eq_none_iff.1 hplace.symm]
      cases hy : g'.get? i j with
      | none => rfl
      | some y =>
        obtain ⟨x, hx'⟩ := exists_get?_of_size_eq hg hrows.symm hcols.symm hy
        cases hx.symm.trans hx'
    | some x =>
      obtain ⟨y, hy, hfx⟩ := hvisit i j x hx
      obtain ⟨y', hy', hfx'⟩ := exists_of_traverse_left htraverse hx
      cases hfx.symm.trans hfx'
      rw [hy, hy']

end Traverse

lemma traverse_congr {β γ : Type} {R : β → β → Prop} {f : Nat → Nat → β → Except Error γ}
    {nr nc : Nat} {cells cells' : List β} (hf : ∀ i j x y, R x y → f i j x = f i j y)
    (h : List.Forall₂ R cells cells') :
    (mk nr nc cells).traverse f = (mk nr nc cells').traverse f := by
  -- the places are numbered from the start, so a later stretch of cells is numbered from there on
  have hentries : ∀ k, (((cells.zipIdx k).map fun (x, k) => (k / nc, k % nc, x)).mapM
      fun (i, j, x) => f i j x) = ((cells'.zipIdx k).map fun (x, k) => (k / nc, k % nc, x)).mapM
      fun (i, j, x) => f i j x := by
    induction h with
    | nil => exact fun _ => rfl
    | cons hxy _ ih =>
      intro k
      simp only [List.zipIdx_cons, List.map_cons, List.mapM_cons]
      rw [hf _ _ _ _ hxy, ih (k + 1)]
  rw [traverse, traverse, entries, entries, hentries 0]

end BlockSparse.Grid
