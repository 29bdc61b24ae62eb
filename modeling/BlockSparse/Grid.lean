import BlockSparse.Size

/-! Rectangular grids, with their cells row after row. A grid of no rows may still have columns, and
a grid of no columns any number of rows, so both numbers are kept beside the cells. The constructors
check that there is one cell for each place; `Grid.WellFormed` states it. -/
namespace BlockSparse

/-- A number of rows and of columns, and the cells row after row. -/
structure Grid (α : Type) where
  numRows : Nat
  numCols : Nat
  cells : List α

namespace Grid
variable {α β : Type}

/-- There is one cell for each row and column. -/
def WellFormed (g : Grid α) : Prop := g.cells.length = g.numRows * g.numCols

instance (g : Grid α) : Decidable g.WellFormed :=
  inferInstanceAs (Decidable (g.cells.length = g.numRows * g.numCols))

/-- The first row, from a given index on, whose length is not the expected one. -/
def raggedRow? (expected : Nat) : Nat → List (List α) → Option Error
  | _, [] => none
  | i, row :: rows =>
    if row.length = expected then raggedRow? expected (i + 1) rows
    else some (.raggedGrid i expected row.length)

/-- The grid with the given rows, all as long as the first one. -/
def ofRows (rows : List (List α)) : Except Error (Grid α) :=
  let numCols := (rows.head?.map List.length).getD 0
  match raggedRow? numCols 0 rows with
  | some e => .error e
  | none => .ok ⟨rows.length, numCols, rows.flatten⟩

/-- The grid whose cells are given row after row. The number of places is computed before the cells
are counted; the error for a wrong count names the row in which the cells end. -/
def ofRowMajor (numRows numCols : Nat) (cells : List α) : Except Error (Grid α) := do
  let expected ← Size.mul numRows numCols
  if cells.length = expected then .ok ⟨numRows, numCols, cells⟩
  else .error (.raggedGrid (cells.length / numCols) expected cells.length)

/-- The cell at a row and a column. -/
def get? (g : Grid α) (i j : Nat) : Option α :=
  if i < g.numRows ∧ j < g.numCols then g.cells[i * g.numCols + j]? else none

/-- The cells of a row of the grid. Past the last row the program stops, unless rows have no cells,
and what is given here stands for nothing. -/
def blockRow (g : Grid α) (i : Nat) : List α := (g.cells.drop (i * g.numCols)).take g.numCols

/-- The rows from top to bottom. -/
def rows (g : Grid α) : List (List α) := (List.range g.numRows).map g.blockRow

/-- The cells met by walking the cells in steps of one row, from the `j`-th cell of the first row
on. Past the last column the walk starts in a later row. -/
def blockCol (g : Grid α) (j : Nat) : List α :=
  (List.range g.numRows).filterMap fun i => g.cells[i * g.numCols + j]?

/-- The cells with their row and column, row after row. -/
def entries (g : Grid α) : List (Nat × Nat × α) :=
  g.cells.zipIdx.map fun (x, k) => (k / g.numCols, k % g.numCols, x)

/-- Applies a function to every cell. -/
def map (f : α → β) (g : Grid α) : Grid β := ⟨g.numRows, g.numCols, g.cells.map f⟩

/-- Applies a function to every cell and its row and column. -/
def mapIdx (f : Nat → Nat → α → β) (g : Grid α) : Grid β :=
  ⟨g.numRows, g.numCols, g.entries.map fun (i, j, x) => f i j x⟩

/-- Visits the cells with their row and column, row after row, and collects the results. -/
def traverse {m : Type → Type} [Monad m] (f : Nat → Nat → α → m β) (g : Grid α) : m (Grid β) := do
  let cells ← g.entries.mapM fun (i, j, x) => f i j x
  pure ⟨g.numRows, g.numCols, cells⟩

@[simp] theorem numRows_map (f : α → β) (g : Grid α) : (g.map f).numRows = g.numRows := rfl

@[simp] theorem numCols_map (f : α → β) (g : Grid α) : (g.map f).numCols = g.numCols := rfl

@[simp] theorem cells_map (f : α → β) (g : Grid α) : (g.map f).cells = g.cells.map f := rfl

@[simp] theorem get?_map (f : α → β) (g : Grid α) (i j : Nat) :
    (g.map f).get? i j = (g.get? i j).map f := by
  unfold get? map
  split <;> simp

/-- The number of a place, counted row after row, is below the number of places. -/
theorem index_lt {numRows numCols i j : Nat} (hi : i < numRows) (hj : j < numCols) :
    i * numCols + j < numRows * numCols := by
  have h : (i + 1) * numCols ≤ numRows * numCols := Nat.mul_le_mul_right numCols hi
  rw [Nat.add_mul] at h
  omega

/-- A well-formed grid has a cell at exactly the places that it spans. -/
theorem isSome_get?_iff {g : Grid α} (h : g.WellFormed) {i j : Nat} :
    (g.get? i j).isSome ↔ i < g.numRows ∧ j < g.numCols := by
  unfold get?
  split
  · rename_i hij
    have hlt := index_lt hij.1 hij.2
    rw [← h] at hlt
    simp [hlt, hij]
  · simp [*]

/-- Every row of a well-formed grid has a cell for each column. -/
theorem length_blockRow {g : Grid α} (h : g.WellFormed) {i : Nat} (hi : i < g.numRows) :
    (g.blockRow i).length = g.numCols := by
  have hmul : (i + 1) * g.numCols ≤ g.numRows * g.numCols := Nat.mul_le_mul_right g.numCols hi
  rw [Nat.add_mul, ← h] at hmul
  simp only [blockRow, List.length_take, List.length_drop]
  omega

/-- A row lists the cells at its places from left to right. -/
theorem getElem?_blockRow (g : Grid α) {i j : Nat} (hi : i < g.numRows) :
    (g.blockRow i)[j]? = g.get? i j := by
  unfold blockRow get?
  rw [List.getElem?_take]
  by_cases hj : j < g.numCols <;> simp [hi, hj]

/-- A column of the grid lists the cells at its places from top to bottom. -/
theorem blockCol_eq (g : Grid α) {j : Nat} (hj : j < g.numCols) :
    g.blockCol j = (List.range g.numRows).filterMap (g.get? · j) := by
  have along : ∀ rows : List Nat, (∀ i ∈ rows, i < g.numRows) →
      (rows.filterMap fun i => g.cells[i * g.numCols + j]?) = rows.filterMap (g.get? · j) := by
    intro rows hrows
    induction rows with
    | nil => rfl
    | cons i rows ih =>
      have hi : g.get? i j = g.cells[i * g.numCols + j]? := by
        simp [get?, hrows i (List.mem_cons_self ..), hj]
      rw [List.filterMap_cons, List.filterMap_cons, hi,
        ih fun k hk => hrows k (List.mem_cons_of_mem _ hk)]
  exact along _ fun i hi => List.mem_range.1 hi

theorem raggedRow?_eq_none_iff {expected i : Nat} {rows : List (List α)} :
    raggedRow? expected i rows = none ↔ ∀ row ∈ rows, row.length = expected := by
  induction rows generalizing i with
  | nil => simp [raggedRow?]
  | cons row rows ih =>
    unfold raggedRow?
    split <;> simp_all

/-- Rows of one length have that many cells each. -/
theorem length_flatten_of_forall {n : Nat} {rows : List (List α)}
    (h : ∀ row ∈ rows, row.length = n) : rows.flatten.length = rows.length * n := by
  induction rows with
  | nil => simp
  | cons row rows ih =>
    rw [List.flatten_cons, List.length_append, h row (List.mem_cons_self ..),
      ih fun r hr => h r (List.mem_cons_of_mem _ hr), List.length_cons, Nat.add_mul]
    omega

/-- What `ofRows` accepts is well formed. -/
theorem wellFormed_of_ofRows {rows : List (List α)} {g : Grid α} (h : ofRows rows = .ok g) :
    g.WellFormed := by
  simp only [ofRows] at h
  split at h
  · simp at h
  · rename_i hnone
    cases h
    exact length_flatten_of_forall (raggedRow?_eq_none_iff.1 hnone)

theorem ofRowMajor_of_lt {nr nc : Nat} (h : nr * nc < Size.bound) (cells : List α) :
    ofRowMajor nr nc cells = if cells.length = nr * nc then .ok ⟨nr, nc, cells⟩
      else .error (.raggedGrid (cells.length / nc) (nr * nc) cells.length) := by
  rw [ofRowMajor, Size.mul, Size.check_of_lt h]
  rfl

theorem ofRowMajor_of_le {nr nc : Nat} (h : Size.bound ≤ nr * nc) (cells : List α) :
    ofRowMajor nr nc cells = .error (.sizeOverflow .multiply) := by
  rw [ofRowMajor, Size.mul, Size.check_of_le h]
  rfl

/-- A list of cells makes a grid exactly when their number is right and can be computed. -/
theorem ofRowMajor_eq_ok_iff {nr nc : Nat} {cells : List α} {g : Grid α} :
    ofRowMajor nr nc cells = .ok g ↔
      nr * nc < Size.bound ∧ g = ⟨nr, nc, cells⟩ ∧ g.WellFormed := by
  constructor
  · intro h
    by_cases hlt : nr * nc < Size.bound
    · rw [ofRowMajor_of_lt hlt] at h
      split at h
      · rename_i hlen
        cases h
        exact ⟨hlt, rfl, hlen⟩
      · cases h
    · rw [ofRowMajor_of_le (Nat.le_of_not_lt hlt)] at h
      cases h
  · rintro ⟨hlt, rfl, hlen⟩
    rw [ofRowMajor_of_lt hlt]
    exact if_pos hlen

example : (mk 2 3 [1, 2, 3, 4, 5, 6]).rows = [[1, 2, 3], [4, 5, 6]] := by decide
example : (mk 2 3 [1, 2, 3, 4, 5, 6]).blockCol 1 = [2, 5] := by decide
example : (mk 2 3 [1, 2, 3, 4, 5, 6]).blockCol 4 = [5] := by decide

end Grid
end BlockSparse
