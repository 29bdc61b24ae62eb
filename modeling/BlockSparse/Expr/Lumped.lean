import BlockSparse.Expr.Basic
import BlockSparse.Sparse.Kernels

/-! The inverse of a lumped matrix: the diagonal matrix of the reciprocals of the row sums. It is an
operator that knows its matrix. -/
namespace BlockSparse
variable {α : Type}

namespace SparseMatrix

/-- The sum of the stored values of a row, from left to right. -/
def rowSum [Zero α] [Add α] (entries : List (Nat × α)) : α :=
  entries.foldl (fun acc e => acc + e.2) 0

/-- The reciprocals of the row sums as a diagonal matrix; the first row that sums to zero is an
error. -/
def lumpedInverse [Zero α] [One α] [Add α] [Div α] [BEq α] (a : SparseMatrix α) :
    Except Error (SparseMatrix α) := do
  let rows ← a.rows.zipIdx.mapM fun (entries, i) =>
    let s := rowSum entries
    if s == 0 then .error (.unsupported (.zeroRowSum i)) else .ok [(i, 1 / s)]
  pure ⟨a.nrows, rows⟩

end SparseMatrix

namespace LinearOperator

/-- The lumped inverse with the given diagonal matrix. -/
def lumpedInverse (diagonal : SparseMatrix α) : LinearOperator α :=
  ⟨"LumpedInverseDiagonal", some (.matrix diagonal)⟩

@[simp] theorem matrix?_lumpedInverse (diagonal : SparseMatrix α) :
    (lumpedInverse diagonal).matrix? = some diagonal := rfl

end LinearOperator
end BlockSparse
