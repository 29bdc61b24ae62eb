import BlockSparse.DenseVector
import BlockSparse.Sparse.Basic

/-! Concrete values: the results of evaluating expressions. -/
namespace BlockSparse

/-- A scalar, a sparse matrix or a dense vector. -/
inductive Value (α : Type) where
  | scalar (s : α)
  | matrix (a : SparseMatrix α)
  | vector (x : DenseVector α)
  deriving BEq, DecidableEq

namespace Value
variable {α : Type}

/-- The kind of a value. -/
def kind : Value α → Kind
  | scalar _ => .scalar
  | matrix _ => .matrix
  | vector _ => .vector

/-- The shape of a value; a scalar has none. -/
def shape? : Value α → Option Shape
  | scalar _ => none
  | matrix a => some a.shape
  | vector x => some (.vector x.length)

/-- The scalar of a value that is one. -/
def scalar? : Value α → Option α
  | scalar s => some s
  | _ => none

/-- The matrix of a value that is one. -/
def matrix? : Value α → Option (SparseMatrix α)
  | matrix a => some a
  | _ => none

/-- The vector of a value that is one. -/
def vector? : Value α → Option (DenseVector α)
  | vector x => some x
  | _ => none

/-- A matrix inside a value is well formed. -/
def WellFormed : Value α → Prop
  | matrix a => a.WellFormed
  | _ => True

@[simp] theorem shape?_scalar (s : α) : (scalar s).shape? = none := rfl

@[simp] theorem shape?_matrix (a : SparseMatrix α) : (matrix a).shape? = some a.shape := rfl

@[simp] theorem shape?_vector (x : DenseVector α) :
    (vector x).shape? = some (.vector x.length) := rfl

end Value
end BlockSparse
