import BlockSparse.Block.Assemble
import BlockSparse.Block.Vector

/-! Turning any expression into a concrete result: block vectors are concatenated, block matrices
are assembled by a strategy, and every other expression is evaluated. -/
namespace BlockSparse

/-- A single value, or the evaluated blocks of a grid that were kept apart. -/
inductive Assembled (α : Type) where
  | value (v : Value α)
  | blocks (b : BlockMatrix α)

namespace Assembled
variable {α : Type}

/-- The single value. -/
def value? : Assembled α → Option (Value α)
  | value v => some v
  | blocks _ => none

/-- The single value, if it is a matrix. -/
def matrix? (r : Assembled α) : Option (SparseMatrix α) := r.value?.bind Value.matrix?

/-- The single value, if it is a vector. -/
def vector? (r : Assembled α) : Option (DenseVector α) := r.value?.bind Value.vector?

/-- The blocks that were kept apart. -/
def blocks? : Assembled α → Option (BlockMatrix α)
  | value _ => none
  | blocks b => some b

end Assembled

variable {α : Type} [Zero α] [One α] [Add α] [Mul α] [Neg α] [BEq α]

namespace ResolvedGrid

/-- The single matrix that a strategy makes of a resolved grid, unless it keeps the blocks. -/
def matrixBy? (r : ResolvedGrid α) : Strategy → Option (Except Error (SparseMatrix α))
  | .concatenate => some r.concatenate
  | .streamRows => some r.streamRows
  | .keepBlocks => none

end ResolvedGrid

namespace BlockMatrix

/-- Assembles a block matrix, noting the evaluations of the cells and the assembly itself. -/
def assembleLogged (b : BlockMatrix α) (strategy : Strategy) : Logged α (Assembled α) := do
  let r ← b.resolveLogged
  Logged.note (.assembling r.sizes.totalRows r.sizes.totalCols r.cells.numRows r.cells.numCols
    strategy)
  match r.matrixBy? strategy with
  | none => pure (.blocks r.toBlockMatrix)
  | some result => do
    let a ← Logged.lift result
    Logged.note (.assembled a.nnz)
    pure (.value (.matrix a))

/-- What a strategy makes of a block matrix. -/
def assemble (b : BlockMatrix α) (strategy : Strategy) : Except Error (Assembled α) :=
  (b.assembleLogged strategy).result

/-- Assembly by any strategy starts from the resolved cells. -/
theorem assemble_eq (b : BlockMatrix α) (strategy : Strategy) :
    b.assemble strategy = (do
      let r ← b.resolve
      match r.matrixBy? strategy with
      | none => pure (.blocks r.toBlockMatrix)
      | some result => (fun a => .value (.matrix a)) <$> result) := by
  rw [assemble, assembleLogged, Logged.result_bind, resolve]
  refine congrArg _ (funext fun r => ?_)
  cases r.matrixBy? strategy with
  | none => rfl
  | some result => cases result <;> rfl

end BlockMatrix

namespace Expr

/-- Turns an expression into a concrete result, keeping a log. -/
def assembleLogged (strategy : Strategy) : Expr α → Logged α (Assembled α)
  | .blockVector blocks => do
    let x ← BlockVector.flattenLogged blocks
    Logged.note (.concatenated blocks.length x.length)
    pure (.value (.vector x))
  | .blockMatrix b => BlockMatrix.assembleLogged b strategy
  | e => do
    let v ← e.evalLogged
    pure (.value v)

/-- The concrete result of an expression. -/
def assemble (e : Expr α) (strategy : Strategy) : Except Error (Assembled α) :=
  (e.assembleLogged strategy).result

end Expr
end BlockSparse
