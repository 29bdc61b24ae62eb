import BlockSparse.Proofs.Grid

/-! Construction of grids and the ways to read them. Rows of one length, or a list of cells of the
right length, make a grid; single cells, rows and the numbered walk over all cells then show the
same cells at the same places, and either constructor makes the grid again from what it gives out.
The right length is a product of two numbers that are only given, so it may be too large to compute;
then nothing is reported about the cells. -/
namespace BlockSparse.Grid
variable {α : Type} {g : Grid α} {rows : List (List α)} {e : Error} {i : Nat}

section Construction

/-- The length of the first row, which all other rows have to have; without rows it is zero. -/
def firstLength (rows : List (List α)) : Nat := (rows.head?.map List.length).getD 0

/-- A row that has not the expected length, with the error that names its index. -/
inductive Ragged (expected : Nat) : List α × Nat → Error → Prop
  | row {row : List α} {i : Nat} (h : row.length ≠ expected) :
    Ragged expected (row, i) (.raggedGrid i expected row.length)

lemma raggedRow?_eq_some_iff {expected : Nat} :
    raggedRow? expected i rows = some e ↔ First (Ragged expected) (rows.zipIdx i) e := by
  induction rows generalizing i with
  | nil => constructor <;> intro h <;> cases h
  | cons row rows ih =>
    rw [raggedRow?, List.zipIdx_cons]
    by_cases hlen : row.length = expected
    · rw [if_pos hlen, ih]
      constructor
      · intro h
        refine .later (fun d hd => ?_) h
        cases hd with
        | row hne => exact hne hlen
      · intro h
        cases h with
        | here found =>
          cases found with
          | row hne => exact absurd hlen hne
        | later _ rest => exact rest
    · rw [if_neg hlen]
      constructor
      · intro h
        cases h
        exact .here (.row hlen)
      · intro h
        cases h with
        | here found =>
          cases found
          rfl
        | later none _ => exact absurd (.row hlen) (none _)

lemma ofRows_of_none (h : raggedRow? (firstLength rows) 0 rows = none) :
    ofRows rows = .ok ⟨rows.length, firstLength rows, rows.flatten⟩ := by
  rw [firstLength] at h
  simp only [ofRows, firstLength, h]

lemma ofRows_of_some (h : raggedRow? (firstLength rows) 0 rows = some e) :
    ofRows rows = .error e := by
  rw [firstLength] at h
  simp only [ofRows, h]

/-- Rows make no grid exactly when one of them is not as long as the first one, and the first such
row is reported. -/
theorem ofRows_eq_error_iff :
    ofRows rows = .error e ↔ First (Ragged (firstLength rows)) rows.zipIdx e := by
  rw [← raggedRow?_eq_some_iff]
  refine ⟨fun h => ?_, ofRows_of_some⟩
  cases hragged : raggedRow? (firstLength rows) 0 rows with
  | none =>
    rw [ofRows_of_none hragged] at h
    cases h
  | some d =>
    rw [ofRows_of_some hragged] at h
    cases h
    rfl

/-- Rows of one length make the grid whose cells are those of the rows one behind the other. -/
theorem ofRows_eq_ok_iff : ofRows rows = .ok g ↔ (∀ row ∈ rows, row.length = firstLength rows) ∧
    g = ⟨rows.length, firstLength rows, rows.flatten⟩ := by
  rw [← raggedRow?_eq_none_iff (i := 0)]
  constructor
  · intro h
    cases hragged : raggedRow? (firstLength rows) 0 rows with
    | none =>
      rw [ofRows_of_none hragged] at h
      cases h
      exact ⟨rfl, rfl⟩
    | some d =>
      rw [ofRows_of_some hragged] at h
      cases h
  · rintro ⟨hnone, rfl⟩
    exact ofRows_of_none hnone

/-- A grid that one of the two constructors makes. -/
inductive Constructed (g : Grid α) : Prop
  | rows {rows : List (List α)} (h : ofRows rows = .ok g) : Constructed g
  | rowMajor {numRows numCols : Nat} {cells : List α}
      (h : ofRowMajor numRows numCols cells = .ok g) : Constructed g

lemma Constructed.wellFormed (h : Constructed g) : g.WellFormed := by
  cases h with
  | rows h => exact wellFormed_of_ofRows h
  | rowMajor h => exact (ofRowMajor_eq_ok_iff.1 h).2.2

end Construction

section Access

lemma zipIdx_map_range (f : Nat → α) (n : Nat) :
    ((List.range n).map f).zipIdx = (List.range n).map fun i => (f i, i) := by
  apply List.ext_getElem?
  intro k
  rw [List.getElem?_zipIdx, List.getElem?_map, List.getElem?_map]
  by_cases hk : k < n <;> simp [hk]

/-- A row of a well-formed grid lists the cells at its places. -/
theorem map_some_blockRow (hg : g.WellFormed) (hi : i < g.numRows) :
    (g.blockRow i).map some = (List.range g.numCols).map (g.get? i) := by
  apply List.ext_getElem?
  intro j
  rw [List.getElem?_map, List.getElem?_map, getElem?_blockRow g hi]
  by_cases hj : j < g.numCols
  · obtain ⟨x, hx⟩ := exists_get? hg hi hj
    rw [List.getElem?_range hj, Option.map_some, hx, Option.map_some]
  · rw [List.getElem?_eq_none (by simpa using hj), get?, if_neg fun hij => hj hij.2]
    rfl

/-- The walk over a well-formed grid meets each place once, row after row, with its cell. -/
theorem map_some_entries (hg : g.WellFormed) :
    (g.entries.map fun p => (p.1, p.2.1, some p.2.2)) = (List.range g.numRows).flatMap fun i =>
      (List.range g.numCols).map fun j => (i, j, g.get? i j) := by
  have hrow : ∀ i < g.numRows, ((g.blockRow i).zipIdx.map fun p => (i, p.2, some p.1)) =
      (List.range g.numCols).map fun j => (i, j, g.get? i j) := by
    intro i hi
    have hzip := congrArg List.zipIdx (map_some_blockRow hg hi)
    rw [List.zipIdx_map, zipIdx_map_range] at hzip
    simpa [Function.comp_def] using congrArg (List.map fun p => (i, p.2, p.1)) hzip
  rw [entries_eq hg, rows, zipIdx_map_range, List.map_flatMap, List.flatMap_map]
  apply List.flatMap_congr
  intro i hi
  rw [← hrow i (List.mem_range.1 hi), List.map_map]
  rfl

/-- The rows of a well-formed grid make it again, unless there is none to tell the number of
columns. -/
theorem ofRows_rows (hg : g.WellFormed) (hpos : 1 ≤ g.numRows) : ofRows g.rows = .ok g := by
  have hlen : ∀ row ∈ g.rows, row.length = g.numCols := by
    intro row hrow
    obtain ⟨i, hi, rfl⟩ := List.mem_map.1 hrow
    exact length_blockRow hg (List.mem_range.1 hi)
  have hfirst : firstLength g.rows = g.numCols := by
    rw [firstLength, List.head?_eq_getElem?, getElem?_rows hpos]
    exact length_blockRow hg hpos
  refine ofRows_eq_ok_iff.2 ⟨by rwa [hfirst], ?_⟩
  rw [hfirst, flatten_rows hg, rows, List.length_map, List.length_range]

/-- All ways to read a grid agree on which cell stands where, and what is read makes the grid
again. -/
structure Coherent (g : Grid α) : Prop where
  length_cells : g.cells.length = g.numRows * g.numCols
  isSome_get? : ∀ i j, (g.get? i j).isSome ↔ i < g.numRows ∧ j < g.numCols
  get?_eq : ∀ i < g.numRows, ∀ j < g.numCols, g.get? i j = g.cells[i * g.numCols + j]?
  /-- Each place is met once, row after row. -/
  entries_eq : (g.entries.map fun p => (p.1, p.2.1, some p.2.2)) =
    (List.range g.numRows).flatMap fun i => (List.range g.numCols).map fun j => (i, j, g.get? i j)
  /-- The number of a cell is divided by the number of columns only where there are columns. -/
  numCols_pos : g.cells ≠ [] → 0 < g.numCols
  /-- The stretch of cells that a row is cut from is there. -/
  row_end_le : ∀ i < g.numRows, (i + 1) * g.numCols ≤ g.cells.length
  blockRow_eq : ∀ i < g.numRows, (g.blockRow i).map some = (List.range g.numCols).map (g.get? i)
  ofRowMajor_cells : g.cells.length < Size.bound → ofRowMajor g.numRows g.numCols g.cells = .ok g
  ofRows_rows : 1 ≤ g.numRows → ofRows g.rows = .ok g

lemma coherent (hg : g.WellFormed) : g.Coherent where
  length_cells := hg
  isSome_get? _ _ := isSome_get?_iff hg
  get?_eq _ hi _ hj := if_pos ⟨hi, hj⟩
  entries_eq := map_some_entries hg
  numCols_pos := by
    intro hne
    refine Nat.pos_of_ne_zero fun hzero => hne (List.length_eq_zero_iff.1 ?_)
    rw [hg, hzero, Nat.mul_zero]
  row_end_le := by
    intro i hi
    rw [hg]
    exact Nat.mul_le_mul_right g.numCols hi
  blockRow_eq _ hi := map_some_blockRow hg hi
  ofRowMajor_cells hlen := ofRowMajor_eq_ok_iff.2 ⟨hg ▸ hlen, rfl, hg⟩
  ofRows_rows := ofRows_rows hg

end Access

/-- Cells make no grid exactly when the number of places is too large to compute, and then nothing
is said of the cells, or when it is not the number of cells. -/
theorem ofRowMajor_eq_error_iff {numRows numCols : Nat} {cells : List α} :
    ofRowMajor numRows numCols cells = .error e ↔
      (Size.bound ≤ numRows * numCols ∧ e = .sizeOverflow .multiply) ∨
      (numRows * numCols < Size.bound ∧ cells.length ≠ numRows * numCols ∧
        e = .raggedGrid (cells.length / numCols) (numRows * numCols) cells.length) := by
  by_cases hlt : numRows * numCols < Size.bound
  · rw [ofRowMajor_of_lt hlt]
    by_cases hlen : cells.length = numRows * numCols
    · simp [hlen, Nat.not_le.2 hlt]
    · simp [hlen, hlt, Nat.not_le.2 hlt, eq_comm]
  · rw [ofRowMajor_of_le (Nat.le_of_not_lt hlt)]
    simp [hlt, Nat.le_of_not_lt hlt, eq_comm]

/-- Rows make a grid exactly when all are as long as the first one, and otherwise the first one that
is not is reported. Cells make a grid exactly when there is one for each place, and otherwise their
number is reported, unless the number of places is too large to compute, which stops the program. In
what either constructor makes, all ways to read the grid agree, and what is read makes the grid
again. -/
theorem construction_outcome (α : Type) :
    (∀ (rows : List (List α)) (e : Error),
      ofRows rows = .error e ↔ First (Ragged (firstLength rows)) rows.zipIdx e) ∧
    (∀ (rows : List (List α)) (g : Grid α), ofRows rows = .ok g ↔
      (∀ row ∈ rows, row.length = firstLength rows) ∧
        g = ⟨rows.length, firstLength rows, rows.flatten⟩) ∧
    (∀ (numRows numCols : Nat) (cells : List α) (g : Grid α),
      ofRowMajor numRows numCols cells = .ok g ↔ numRows * numCols < Size.bound ∧
        cells.length = numRows * numCols ∧ g = ⟨numRows, numCols, cells⟩) ∧
    (∀ (numRows numCols : Nat) (cells : List α) (e : Error),
      ofRowMajor numRows numCols cells = .error e ↔
        (Size.bound ≤ numRows * numCols ∧ e = .sizeOverflow .multiply) ∨
        (numRows * numCols < Size.bound ∧ cells.length ≠ numRows * numCols ∧
          e = .raggedGrid (cells.length / numCols) (numRows * numCols) cells.length)) ∧
    ∀ g : Grid α, Constructed g → g.Coherent := by
  refine ⟨fun _ _ => ofRows_eq_error_iff, fun _ _ => ofRows_eq_ok_iff,
    fun numRows numCols cells g => ?_, fun _ _ _ _ => ofRowMajor_eq_error_iff,
    fun g h => coherent h.wellFormed⟩
  rw [ofRowMajor_eq_ok_iff]
  constructor
  · rintro ⟨hlt, rfl, hg⟩
    exact ⟨hlt, hg, rfl⟩
  · rintro ⟨hlt, hlen, rfl⟩
    exact ⟨hlt, rfl, hlen⟩

/-- Rows without cells make a grid without columns; of rows of lengths one, two and none the second
is reported; six cells make two rows of three. -/
theorem construction_outcome_emptyRows :
    (Constructed (mk 3 0 ([] : List Nat)) ∧ (mk 3 0 ([] : List Nat)).entries = [] ∧
      ofRows (mk 3 0 ([] : List Nat)).rows = .ok ⟨3, 0, []⟩) ∧
    ofRows [[4], [5, 6], []] = .error (.raggedGrid 1 1 2) ∧
    (Constructed (mk 2 3 [1, 2, 3, 4, 5, 6]) ∧
      ((mk 2 3 [1, 2, 3, 4, 5, 6]).blockRow 1).map some = [some 4, some 5, some 6]) := by
  obtain ⟨herror, hrows, hcells, _, hcoherent⟩ := construction_outcome Nat
  have hempty : Constructed (mk 3 0 ([] : List Nat)) :=
    .rows ((hrows [[], [], []] _).2 ⟨by decide, rfl⟩)
  have hsix : Constructed (mk 2 3 [1, 2, 3, 4, 5, 6]) :=
    .rowMajor ((hcells _ _ _ _).2 ⟨by decide, rfl, rfl⟩)
  refine ⟨⟨hempty, rfl, (hcoherent _ hempty).ofRows_rows (by decide)⟩, ?_, hsix,
    (hcoherent _ hsix).blockRow_eq 1 (by decide)⟩
  refine (herror _ _).2 (.later (fun d hd => ?_) (.here (.row (by decide))))
  cases hd with
  | row hne => exact hne rfl

/-- No cells at all are too few for four billion rows and as many columns, but the program stops
before it has compared the numbers. -/
theorem ofRowMajor_stops_uncounted :
    ([] : List Nat).length ≠ 4294967296 * 4294967296 ∧
    ¬ ∃ row expected actual, ofRowMajor 4294967296 4294967296 ([] : List Nat) =
      .error (.raggedGrid row expected actual) := by
  refine ⟨by decide, ?_⟩
  rintro ⟨row, expected, actual, h⟩
  rw [ofRowMajor_of_le (by decide)] at h
  cases h

end BlockSparse.Grid
