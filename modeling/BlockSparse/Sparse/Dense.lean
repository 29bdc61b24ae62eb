import BlockSparse.Size
import BlockSparse.Sparse.Basic

/-! Dense matrices by rows, their sparse forms, and the dense concatenation of a grid of blocks by
copying each block into place. -/
namespace BlockSparse

/-- A matrix with every entry written out. -/
structure DenseMatrix (α : Type) where
  ncols : Nat
  rows : List (List α)
  deriving BEq, DecidableEq

namespace DenseMatrix
variable {α : Type}

/-- The number of rows. -/
def nrows (d : DenseMatrix α) : Nat := d.rows.length

/-- The entry at a position, if the matrix is that large. -/
def stored? (d : DenseMatrix α) (i j : Nat) : Option α := d.rows[i]?.bind (·[j]?)

/-- The matrix whose entries are given row after row. -/
def ofRowMajor (nrows ncols : Nat) (values : List α) : DenseMatrix α :=
  ⟨ncols, (List.range nrows).map fun i => (values.drop (i * ncols)).take ncols⟩

/-- The matrix whose entries are all zero. -/
def zeros [Zero α] (nrows ncols : Nat) : DenseMatrix α :=
  ⟨ncols, (List.range nrows).map fun _ => List.replicate ncols 0⟩

/-- The sparse matrix that stores the entries different from zero. -/
def toSparse [Zero α] [BEq α] (d : DenseMatrix α) : SparseMatrix α :=
  ⟨d.ncols, d.rows.map fun entries =>
    (entries.zipIdx.filter (·.1 != 0)).map fun (x, j) => (j, x)⟩

/-- Writes a block over the entries from the given row and column on. -/
def paste (d : DenseMatrix α) (top left : Nat) (block : DenseMatrix α) : DenseMatrix α :=
  ⟨d.ncols, d.rows.mapIdx fun i entries => entries.mapIdx fun j x =>
    if top ≤ i ∧ left ≤ j then (block.stored? (i - top) (j - left)).getD x else x⟩

/-- The height of each block row, which is that of its first block. -/
def heights (blocks : List (List (DenseMatrix α))) : List Nat :=
  blocks.map fun row => (row.head?.map nrows).getD 0

/-- The widths of the blocks of the first block row. -/
def widths (blocks : List (List (DenseMatrix α))) : List Nat := (blocks.head?.getD []).map ncols

/-- The concatenation of a grid of blocks. -/
def ofBlocks [Zero α] (blocks : List (List (DenseMatrix α))) : Except Error (DenseMatrix α) := do
  let nrows ← Size.sum (heights blocks)
  let ncols ← Size.sum (widths blocks)
  let tops ← Size.startsFrom 0 (heights blocks)
  let lefts ← Size.startsFrom 0 (widths blocks)
  pure ((blocks.zip tops).foldl (fun d (row, top) =>
    (row.zip lefts).foldl (fun d (block, left) => d.paste top left block) d) (zeros nrows ncols))

end DenseMatrix

namespace SparseMatrix
variable {α : Type}

/-- The dense form, where each stored value is added to zero. -/
def toDense [Zero α] [Add α] (a : SparseMatrix α) : DenseMatrix α :=
  ⟨a.ncols, a.rows.map fun entries => (List.range a.ncols).map fun j =>
    match entries.lookup j with
    | some x => 0 + x
    | none => 0⟩

end SparseMatrix

example :
    DenseMatrix.ofBlocks [[⟨2, [[1, 2], [3, 4]]⟩, ⟨1, [[5], [6]]⟩], [⟨2, [[7, 8]]⟩, ⟨1, [[9]]⟩]] =
    .ok (DenseMatrix.mk 3 [[1, 2, 5], [3, 4, 6], [7, 8, 9]]) := rfl

end BlockSparse
