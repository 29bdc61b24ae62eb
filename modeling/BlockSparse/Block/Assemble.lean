import BlockSparse.Block.Resolve
import BlockSparse.Sparse.Coordinate
import BlockSparse.Sparse.RowBuilder

/-! Assembly of a grid into one matrix, in two ways: by collecting the entries of all blocks at
their offsets, or by streaming the rows of the blocks of each block row side by side. -/
namespace BlockSparse
variable {α : Type}

namespace BlockSizes

/-- The entries of a block moved to its place, which starts where the offsets say, if the block has
the size of that place. -/
def placedTriplets (sizes : BlockSizes) (rowOffsets colOffsets : List Nat) (i j : Nat)
    (a : SparseMatrix α) : Except Error (List (Nat × Nat × α)) :=
  if a.nrows ≠ sizes.rowSize i then .error (.inconsistentSizes .row i [sizes.rowSize i, a.nrows])
  else if a.ncols ≠ sizes.colSize j then
    .error (.inconsistentSizes .column j [sizes.colSize j, a.ncols])
  else
    let top := rowOffsets[i]?.getD 0
    let left := colOffsets[j]?.getD 0
    .ok (a.triplets.map fun (r, c, x) => (r + top, c + left, x))

/-- The concatenation of blocks given row after row, where `none` is an empty block. All offsets are
added up before the first block is looked at. The number of places is checked where it is not the
number of blocks, which are held in memory. -/
def concatenate [Add α] (sizes : BlockSizes) (blocks : List (Option (SparseMatrix α))) :
    Except Error (SparseMatrix α) := do
  let nr := sizes.rowSizes.length
  let nc := sizes.colSizes.length
  if blocks.length = nr * nc then
    let rowOffsets ← Size.boundaries sizes.rowSizes
    let colOffsets ← Size.boundaries sizes.colSizes
    let placed ← (Grid.mk nr nc blocks).entries.mapM fun (i, j, block) =>
      match block with
      | some a => sizes.placedTriplets rowOffsets colOffsets i j a
      | none => pure []
    let nrows ← Size.sum sizes.rowSizes
    let ncols ← Size.sum sizes.colSizes
    SparseMatrix.ofTriplets nrows ncols placed.flatten
  else
    let expected ← Size.mul nr nc
    .error (.raggedGrid 0 expected blocks.length)

end BlockSizes

namespace ResolvedGrid

/-- Assembles the grid by concatenating the matrices of its cells. -/
def concatenate [Add α] (r : ResolvedGrid α) : Except Error (SparseMatrix α) :=
  r.sizes.concatenate (r.cells.mapIdx fun i _ cell => cell.matrix? (r.sizes.rowSize i)).cells

/-- One row of the assembled matrix: the rows of the cells of a block row, one beside the other. -/
def streamedRow (colOffsets : List Nat) (cells : List (ResolvedBlock α)) (row : Nat) :
    List (Nat × α) :=
  (cells.zip colOffsets).flatMap fun (cell, offset) => cell.rowEntries row offset

/-- All rows of the assembled matrix from top to bottom. -/
def streamedRows (r : ResolvedGrid α) (colOffsets : List Nat) : List (List (Nat × α)) :=
  (r.cells.rows.zip r.sizes.rowSizes).flatMap fun (cells, height) =>
    (List.range height).map (streamedRow colOffsets cells)

/-- Assembles the grid by inserting one assembled row after the other. -/
def streamRows (r : ResolvedGrid α) : Except Error (SparseMatrix α) := do
  let colOffsets ← Size.boundaries r.sizes.colSizes
  let nrows ← Size.sum r.sizes.rowSizes
  let ncols ← Size.sum r.sizes.colSizes
  let builder ← (r.streamedRows colOffsets).zipIdx.foldlM (fun b (entries, i) =>
    b.insert i (entries.map Prod.fst) (entries.map Prod.snd)) (RowBuilder.new nrows ncols)
  builder.build

end ResolvedGrid

example : BlockSizes.concatenate ⟨[1, 1], [1, 2]⟩
    [some ⟨1, [[(0, 5)]]⟩, some ⟨2, [[(1, 6)]]⟩, none, some ⟨2, [[(0, 7), (1, 0)]]⟩] =
    .ok ⟨3, [[(0, 5), (2, 6)], [(1, 7), (2, 0)]]⟩ := rfl

end BlockSparse
