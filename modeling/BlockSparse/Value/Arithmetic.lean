import BlockSparse.Expr.Basic
import BlockSparse.Sparse.Kernels
import BlockSparse.Trace

/-! Arithmetic of values, with the kernels that it runs on matrices noted in a log. In a sum, a
scalar stands for a multiple of the identity, and a scalar that is zero for nothing at all; whether
it is zero is decided by the scalars' own comparison. -/
namespace BlockSparse.Value
variable {α : Type}

/-- The error for two values that do not combine: about their shapes if both have one. -/
def incompatible (operation : Operation) (u v : Value α) : Error :=
  match u.shape?, v.shape? with
  | some s, some t => .incompatibleShapes operation s t
  | _, _ => .unsupported (.pair operation u.kind v.kind)

/-- The transpose of a matrix; a scalar is its own transpose. -/
def transpose : Value α → Logged α (Value α)
  | scalar s => pure (scalar s)
  | matrix a => do
    Logged.note (.transpose a.nrows a.ncols)
    pure (matrix a.transpose)
  | vector _ => Logged.fail (.unsupported .vectorTranspose)

variable [Zero α] [One α] [Add α] [Mul α]

/-- The product of two values. -/
def mul : Value α → Value α → Logged α (Value α)
  | scalar s, scalar t => pure (scalar (s * t))
  | matrix a, matrix b => do
    Logged.note (.product a.nrows a.ncols b.nrows b.ncols)
    let c ← Logged.lift (a.product b)
    pure (matrix c)
  | matrix a, scalar s => scaled a s
  | scalar s, matrix a => scaled a s
  | vector x, scalar s => pure (vector (DenseVector.scale x s))
  | scalar s, vector x => pure (vector (DenseVector.scale x s))
  | matrix a, vector x => do
    Logged.note (.mulVec a.nrows a.ncols x.length)
    let y ← Logged.lift (a.mulVec x)
    pure (vector y)
  | vector x, v => Logged.fail (incompatible .multiply (vector x) v)
where
  /-- The product of a matrix and a scalar, on whichever side the scalar stands. -/
  scaled (a : SparseMatrix α) (s : α) : Logged α (Value α) := do
    Logged.note (.scale a.nrows a.ncols s)
    pure (matrix (a.scale s))

/-- The multiple of the identity that a scalar stands for beside a matrix. -/
def promote (s : α) (a : SparseMatrix α) : Except Error (SparseMatrix α) :=
  if a.nrows = a.ncols then .ok (SparseMatrix.scaledIdentity a.nrows s)
  else .error (.nonSquareIdentity a.nrows a.ncols)

variable [Neg α] [BEq α]

/-- The sum of two values, neither of which is a scalar that stands for nothing. -/
def addNonzero (op : SumOp) : Value α → Value α → Logged α (Value α)
  | matrix a, scalar s => Logged.lift do
    let b ← promote s a
    let c ← a.axpy op.factor b
    pure (matrix c)
  | scalar s, matrix b => Logged.lift do
    let a ← promote s b
    let c ← a.axpy op.factor b
    pure (matrix c)
  | u, v => Logged.fail (incompatible op.operation u v)

/-- The sum of a scalar zero and a value: the value itself, or for a difference its negative. -/
def addToZero (op : SumOp) (v : Value α) : Logged α (Value α) :=
  match op with
  | .add => pure v
  | .subtract => mul (scalar (-1)) v

/-- The sum or difference of two values. -/
def add (op : SumOp) : Value α → Value α → Logged α (Value α)
  | scalar s, scalar t => pure (scalar (s + op.factor * t))
  | matrix a, matrix b => do
    Logged.note (.axpy a.nrows a.ncols op.factor)
    let c ← Logged.lift (a.axpy op.factor b)
    pure (matrix c)
  | vector x, vector y => do
    let z ← Logged.lift (DenseVector.axpy x op.factor y)
    pure (vector z)
  | u, scalar s => if s == 0 then pure u else addNonzero op u (scalar s)
  | scalar s, v => if s == 0 then addToZero op v else addNonzero op (scalar s) v
  | u, v => Logged.fail (incompatible op.operation u v)

end BlockSparse.Value
