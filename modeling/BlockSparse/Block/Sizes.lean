import BlockSparse.Expr.Shape
import BlockSparse.Offsets

/-! Sizes of block rows and block columns. A block row is as high as its blocks with a shape, which
must agree; scalars fit anywhere and vectors say nothing about the width of their column. -/
namespace BlockSparse

/-- The heights of the block rows and the widths of the block columns of a grid. -/
structure BlockSizes where
  rowSizes : List Nat
  colSizes : List Nat
  deriving DecidableEq

namespace BlockSizes

/-- The number of rows of the assembled matrix, however large. -/
def totalRows (s : BlockSizes) : Nat := Offsets.total s.rowSizes

/-- The number of columns of the assembled matrix, however large. -/
def totalCols (s : BlockSizes) : Nat := Offsets.total s.colSizes

/-- The boundaries of the block rows in the assembled matrix. -/
def rowOffsets (s : BlockSizes) : List Nat := Offsets.cumulative s.rowSizes

/-- The boundaries of the block columns in the assembled matrix. -/
def colOffsets (s : BlockSizes) : List Nat := Offsets.cumulative s.colSizes

/-- Both dimensions of the assembled matrix are sizes, so that they can be added up. -/
def Bounded (s : BlockSizes) : Prop := s.totalRows < Size.bound ∧ s.totalCols < Size.bound

instance (s : BlockSizes) : Decidable s.Bounded :=
  inferInstanceAs (Decidable (s.totalRows < Size.bound ∧ s.totalCols < Size.bound))

/-- The height of a block row. -/
def rowSize (s : BlockSizes) (i : Nat) : Nat := s.rowSizes[i]?.getD 0

/-- The width of a block column. -/
def colSize (s : BlockSizes) (j : Nat) : Nat := s.colSizes[j]?.getD 0

/-- The one size that the blocks along a block row or block column agree on. -/
def uniqueSize (axis : Axis) (index : Nat) (sizes : List (Option Nat)) : Except Error Nat :=
  match Ascending.ofList (sizes.filterMap id) with
  | [size] => .ok size
  | distinct => .error (.inconsistentSizes axis index distinct)

/-- The sizes found at so many places from the `i`-th on. The first place without a size ends the
search, however many follow it. -/
def sizesFrom (size : Nat → Except Error Nat) (i : Nat) : Nat → Except Error (List Nat)
  | 0 => .ok []
  | count + 1 => do
    let s ← size i
    let rest ← sizesFrom size (i + 1) count
    pure (s :: rest)

/-- The sizes of a grid whose cells have the given shapes, rows before columns. -/
def ofShapes (shapes : Grid (Option Shape)) : Except Error BlockSizes := do
  let rowSizes ← sizesFrom (fun i =>
    uniqueSize .row i ((shapes.blockRow i).map (·.map Shape.rows))) 0 shapes.numRows
  let colSizes ← sizesFrom (fun j =>
    uniqueSize .column j ((shapes.blockCol j).map (·.bind Shape.cols?))) 0 shapes.numCols
  pure ⟨rowSizes, colSizes⟩

/-- The places are visited in order. -/
theorem sizesFrom_eq_mapM (size : Nat → Except Error Nat) (i count : Nat) :
    sizesFrom size i count = (List.range' i count).mapM size := by
  induction count generalizing i with
  | zero => rfl
  | succ count ih => simp [sizesFrom, List.range'_succ, List.mapM_cons, ih]

end BlockSizes

namespace BlockMatrix
variable {α : Type}

/-- The sizes of a block matrix. The shapes of all cells are inferred before sizes are compared. -/
def sizes (b : BlockMatrix α) : Except Error BlockSizes := do
  let shapes ← b.traverse fun _ _ e => e.shape
  BlockSizes.ofShapes shapes

end BlockMatrix

namespace BlockVector
variable {α : Type}

/-- The length of a component of a block vector, which has to be a vector. -/
def componentSize (index : Nat) (e : Expr α) : Except Error Nat := do
  match ← e.shape with
  | some (.vector n) => pure n
  | some (.matrix _ _) => .error (.unsupported (.matrixComponent index))
  | none => .error (.inconsistentSizes .row index [])

/-- The lengths of the components of a block vector. -/
def sizes (blocks : BlockVector α) : Except Error (List Nat) :=
  blocks.zipIdx.mapM fun (e, i) => componentSize i e

end BlockVector
end BlockSparse
