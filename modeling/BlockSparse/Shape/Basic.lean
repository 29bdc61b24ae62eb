/-! Shapes of vectors and matrices. A scalar has no shape: wherever one may stand, the shape is an
`Option Shape`. -/
namespace BlockSparse

/-- The shape of a vector or of a matrix. -/
inductive Shape where
  | vector (length : Nat)
  | matrix (rows cols : Nat)
  deriving DecidableEq

namespace Shape

/-- The number of rows, which for a vector is its length. -/
def rows : Shape → Nat
  | vector n => n
  | matrix r _ => r

/-- The number of columns of a matrix; a vector has none. -/
def cols? : Shape → Option Nat
  | vector _ => none
  | matrix _ c => some c

/-- Whether the shape is that of a square matrix. -/
def isSquare : Shape → Bool
  | vector _ => false
  | matrix r c => r == c

/-- Vectors are written as a length in brackets, matrices as rows by columns. -/
def text : Shape → String
  | vector n => s!"[{n}]"
  | matrix r c => s!"{r}x{c}"

@[simp] theorem isSquare_matrix (r c : Nat) : (matrix r c).isSquare = true ↔ r = c := by
  simp [isSquare]

end Shape
end BlockSparse
