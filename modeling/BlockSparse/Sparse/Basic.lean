import BlockSparse.Ascending
import BlockSparse.Shape.Basic

/-! Sparse matrices by rows. Each row lists its stored entries as pairs of a column and a value; a
stored entry may be zero. A matrix is well formed when the columns of each row ascend strictly and
lie below the number of columns. -/
namespace BlockSparse

/-- A matrix given by the stored entries of its rows. -/
structure SparseMatrix (α : Type) where
  ncols : Nat
  rows : List (List (Nat × α))
  deriving BEq, DecidableEq

namespace SparseMatrix
variable {α β : Type}

/-- The number of rows. -/
def nrows (a : SparseMatrix α) : Nat := a.rows.length

/-- The shape of a matrix is that of its grid of positions, stored or not. -/
def shape (a : SparseMatrix α) : Shape := .matrix a.nrows a.ncols

/-- The stored entries of a row; a row past the end has none. -/
def row (a : SparseMatrix α) (i : Nat) : List (Nat × α) := a.rows[i]?.getD []

/-- The columns stored in a row. -/
def rowPattern (a : SparseMatrix α) (i : Nat) : List Nat := (a.row i).map Prod.fst

/-- The value stored at a position, if one is stored there. -/
def stored? (a : SparseMatrix α) (i j : Nat) : Option α := (a.row i).lookup j

/-- The columns stored in each row. -/
def pattern (a : SparseMatrix α) : List (List Nat) := a.rows.map (·.map Prod.fst)

/-- The number of stored entries. -/
def nnz (a : SparseMatrix α) : Nat := a.rows.flatten.length

/-- The stored entries as row, column and value, row by row. -/
def triplets (a : SparseMatrix α) : List (Nat × Nat × α) :=
  a.rows.zipIdx.flatMap fun (entries, i) => entries.map fun (j, x) => (i, j, x)

/-- Applies a function to every stored value and keeps the pattern. -/
def mapValues (f : α → β) (a : SparseMatrix α) : SparseMatrix β :=
  ⟨a.ncols, a.rows.map (·.map fun (j, x) => (j, f x))⟩

/-- A row whose columns ascend strictly and lie below a bound. -/
def RowWellFormed (ncols : Nat) (entries : List (Nat × α)) : Prop :=
  Ascending (entries.map Prod.fst) ∧ ∀ j ∈ entries.map Prod.fst, j < ncols

/-- Every row is well formed. -/
def WellFormed (a : SparseMatrix α) : Prop := ∀ entries ∈ a.rows, RowWellFormed a.ncols entries

instance (ncols : Nat) (entries : List (Nat × α)) : Decidable (RowWellFormed ncols entries) :=
  inferInstanceAs (Decidable (_ ∧ _))

instance (a : SparseMatrix α) : Decidable a.WellFormed :=
  inferInstanceAs (Decidable (∀ entries ∈ a.rows, RowWellFormed a.ncols entries))

@[simp] theorem nrows_mapValues (f : α → β) (a : SparseMatrix α) :
    (a.mapValues f).nrows = a.nrows := by simp [mapValues, nrows]

@[simp] theorem pattern_mapValues (f : α → β) (a : SparseMatrix α) :
    (a.mapValues f).pattern = a.pattern := by simp [mapValues, pattern, Function.comp_def]

@[simp] theorem shape_mapValues (f : α → β) (a : SparseMatrix α) :
    (a.mapValues f).shape = a.shape := by simp [shape, mapValues, nrows]

theorem rowWellFormed_nil (ncols : Nat) : RowWellFormed ncols ([] : List (Nat × α)) := by
  simp [RowWellFormed, Ascending]

/-- Every row of a well-formed matrix is well formed, the empty rows past the end included. -/
theorem WellFormed.row {a : SparseMatrix α} (h : a.WellFormed) (i : Nat) :
    RowWellFormed a.ncols (a.row i) := by
  unfold SparseMatrix.row
  cases hi : a.rows[i]? with
  | none => exact rowWellFormed_nil a.ncols
  | some entries => exact h entries (List.mem_of_getElem? hi)

end SparseMatrix
end BlockSparse
