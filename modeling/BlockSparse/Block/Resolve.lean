import BlockSparse.Block.Sizes
import BlockSparse.Expr.Eval

/-! Resolution of a grid: every cell is evaluated, and scalars become what they stand for at their
place, an empty block or a multiple of the identity. -/
namespace BlockSparse

/-- A cell of a grid once it is evaluated. -/
inductive ResolvedBlock (α : Type) where
  | matrix (a : SparseMatrix α)
  | zero
  | identity (s : α)
  deriving BEq, DecidableEq

/-- A grid of evaluated cells with the sizes of its block rows and block columns. -/
structure ResolvedGrid (α : Type) where
  sizes : BlockSizes
  cells : Grid (ResolvedBlock α)

namespace ResolvedBlock
variable {α : Type}

/-- What a value stands for at a place of the given size. -/
def ofValue [Zero α] [BEq α] (i j rows cols : Nat) : Value α → Except Error (ResolvedBlock α)
  | .matrix a => .ok (matrix a)
  | .scalar s =>
    if s == 0 then .ok zero
    else if rows = cols then .ok (identity s)
    else .error (.nonSquareIdentity rows cols)
  | .vector _ => .error (.unsupported (.vectorCell i j))

/-- The block as a matrix, given its number of rows; a zero block has no entries to give. -/
def matrix? (rows : Nat) : ResolvedBlock α → Option (SparseMatrix α)
  | matrix a => some a
  | zero => none
  | identity s => some (SparseMatrix.scaledIdentity rows s)

/-- The block as an expression, given its number of rows. -/
def toExpr [Zero α] (rows : Nat) : ResolvedBlock α → Expr α
  | matrix a => .matrix a
  | zero => Expr.zero
  | identity s => .matrix (SparseMatrix.scaledIdentity rows s)

/-- The entries of one row of the block, moved to the right by an offset. -/
def rowEntries (row offset : Nat) : ResolvedBlock α → List (Nat × α)
  | matrix a => (a.row row).map fun (j, x) => (j + offset, x)
  | zero => []
  | identity s => [(row + offset, s)]

end ResolvedBlock

namespace ResolvedGrid
variable {α : Type}

/-- The grid as a block matrix again, where each cell is a matrix or the scalar zero. -/
def toBlockMatrix [Zero α] (r : ResolvedGrid α) : BlockMatrix α :=
  r.cells.mapIdx fun i _ cell => cell.toExpr (r.sizes.rowSize i)

end ResolvedGrid

/-- Visiting a grid gives what its visits give without their logs. -/
theorem Logged.result_traverse {α β γ : Type} (f : Nat → Nat → β → Logged α γ) (g : Grid β) :
    (g.traverse f).result = g.traverse fun i j x => (f i j x).result := by
  simp [Grid.traverse]

namespace BlockMatrix
variable {α : Type} [Zero α] [One α] [Add α] [Mul α] [Neg α] [BEq α]

/-- Infers the sizes of a block matrix and evaluates its cells row after row, keeping a log. -/
def resolveLogged (b : BlockMatrix α) : Logged α (ResolvedGrid α) := do
  let sizes ← Logged.lift b.sizes
  let cells ← b.traverse fun i j e => do
    let v ← e.run
    Logged.lift (ResolvedBlock.ofValue i j (sizes.rowSize i) (sizes.colSize j) v)
  pure ⟨sizes, cells⟩

/-- The resolved cells of a block matrix. -/
def resolve (b : BlockMatrix α) : Except Error (ResolvedGrid α) := b.resolveLogged.result

/-- Sizes come before evaluation, and each cell is evaluated before it is fitted into its place. -/
theorem resolve_eq (b : BlockMatrix α) :
    b.resolve = (do
      let sizes ← b.sizes
      let cells ← b.traverse fun i j e => do
        let v ← e.run.result
        ResolvedBlock.ofValue i j (sizes.rowSize i) (sizes.colSize j) v
      pure ⟨sizes, cells⟩) := by
  simp [resolve, resolveLogged, Logged.result_traverse]

end BlockMatrix
end BlockSparse
