import BlockSparse.Grid
import BlockSparse.Value

/-! Expressions over scalars, sparse matrices and vectors. An expression is data: nothing is
computed until it is evaluated. -/
namespace BlockSparse

/-- An operator that has a name and may know a value that represents it. -/
structure LinearOperator (α : Type) where
  name : String
  representation : Option (Value α)

/-- The matrix that represents an operator, if one does. -/
def LinearOperator.matrix? {α : Type} (op : LinearOperator α) : Option (SparseMatrix α) :=
  op.representation.bind Value.matrix?

/-- A sum adds its right operand or subtracts it. -/
inductive SumOp where
  | add
  | subtract
  deriving DecidableEq

namespace SumOp

/-- The operation for which a sum stands. -/
def operation : SumOp → Operation
  | add => .add
  | subtract => .subtract

/-- The scalar by which the right operand is multiplied. -/
def factor {α : Type} [One α] [Neg α] : SumOp → α
  | add => 1
  | subtract => -1

end SumOp

/-- A pending computation. -/
inductive Expr (α : Type) where
  | scalar (s : α)
  | matrix (a : SparseMatrix α)
  | vector (x : DenseVector α)
  /-- The product of a chain of operands. -/
  | product (chain : List (Expr α))
  | sum (op : SumOp) (left right : Expr α)
  | transpose (e : Expr α)
  | operator (op : LinearOperator α)
  | blockMatrix (grid : Grid (Expr α))
  | blockVector (blocks : List (Expr α))

/-- A grid of expressions that makes up one matrix. -/
abbrev BlockMatrix (α : Type) := Grid (Expr α)

/-- A list of expressions that makes up one vector. -/
abbrev BlockVector (α : Type) := List (Expr α)

namespace Value
variable {α : Type}

/-- The leaf that holds a value. -/
def toExpr : Value α → Expr α
  | scalar s => .scalar s
  | matrix a => .matrix a
  | vector x => .vector x

end Value

namespace Expr
variable {α : Type}

/-- The scalar zero. -/
def zero [Zero α] : Expr α := scalar 0

/-- Multiplying from the right onto a product extends its chain. -/
def mul : Expr α → Expr α → Expr α
  | product chain, e => product (chain ++ [e])
  | e, f => product [e, f]

instance : Mul (Expr α) := ⟨mul⟩

instance : Add (Expr α) := ⟨sum .add⟩

instance : Sub (Expr α) := ⟨sum .subtract⟩

/-- The negative of an expression is its product with minus one. -/
instance [One α] [Neg α] : Neg (Expr α) := ⟨fun e => product [scalar (-1), e]⟩

/-- The value of a leaf. -/
def value? : Expr α → Option (Value α)
  | scalar s => some (.scalar s)
  | matrix a => some (.matrix a)
  | vector x => some (.vector x)
  | _ => none

/-- The name of the outermost construction. -/
def kindName : Expr α → String
  | scalar _ => Kind.scalar.name
  | matrix _ => Kind.matrix.name
  | vector _ => Kind.vector.name
  | product _ => "multiply"
  | sum op _ _ => op.operation.name
  | transpose _ => "transpose"
  | operator op => (Unsupported.operator op.name).text
  | blockMatrix _ => Unsupported.blockMatrix.text
  | blockVector _ => Unsupported.blockVector.text

/-- Whether the expression is a scalar leaf. -/
def isScalar : Expr α → Bool
  | scalar _ => true
  | _ => false

/-- Whether the expression is a matrix leaf. -/
def isMatrix : Expr α → Bool
  | matrix _ => true
  | _ => false

/-- Whether the expression is a vector leaf. -/
def isVector : Expr α → Bool
  | vector _ => true
  | _ => false

/-- Whether the expression is a block matrix or a block vector. -/
def isBlock : Expr α → Bool
  | blockMatrix _ | blockVector _ => true
  | _ => false

@[simp] theorem value?_toExpr (v : Value α) : v.toExpr.value? = some v := by
  cases v <;> rfl

end Expr
end BlockSparse
