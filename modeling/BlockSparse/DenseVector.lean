import BlockSparse.Error

/-! Dense vectors and their arithmetic. The order of the operations on each entry is part of the
definitions, so that they also hold for scalars whose arithmetic rounds. -/
namespace BlockSparse

/-- A vector with every entry written out. -/
abbrev DenseVector (α : Type) := List α

namespace DenseVector
variable {α : Type}

/-- The vector `x + factor * y`. -/
def axpy [One α] [Add α] [Mul α] (x : DenseVector α) (factor : α) (y : DenseVector α) :
    Except Error (DenseVector α) :=
  if x.length = y.length then .ok (List.zipWith (fun x y => factor * y * 1 + 1 * x) x y)
  else .error (.incompatibleShapes .add (.vector x.length) (.vector y.length))

/-- Multiplies every entry by a scalar from the right. -/
def scale [Mul α] (x : DenseVector α) (s : α) : DenseVector α := x.map (· * s)

@[simp] theorem length_scale [Mul α] (x : DenseVector α) (s : α) :
    (scale x s).length = x.length := by
  simp [scale]

theorem axpy_of_length_eq [One α] [Add α] [Mul α] {x y : DenseVector α} (h : x.length = y.length)
    (factor : α) :
    axpy x factor y = .ok (List.zipWith (fun x y => factor * y * 1 + 1 * x) x y) := if_pos h

/-- A sum is as long as its operands. -/
theorem length_of_axpy [One α] [Add α] [Mul α] {x y z : DenseVector α} {factor : α}
    (h : axpy x factor y = .ok z) : z.length = x.length := by
  unfold axpy at h
  split at h
  · rename_i hlen
    cases h
    simp [hlen]
  · cases h

theorem length_eq_of_axpy [One α] [Add α] [Mul α] {x y z : DenseVector α} {factor : α}
    (h : axpy x factor y = .ok z) : x.length = y.length := by
  unfold axpy at h
  split at h
  · assumption
  · cases h

end DenseVector
end BlockSparse
