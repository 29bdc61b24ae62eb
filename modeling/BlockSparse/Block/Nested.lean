import BlockSparse.Block.Vector
import BlockSparse.Storage.NestedVector

/-! Evaluated block vectors in storage. Every component gets storage of its own, so that writes
through the resulting view reach nothing else. -/
namespace BlockSparse

/-- Puts vectors into fresh storage, one after another. -/
def Store.allocAll {α : Type} (s : Store α) : List (List α) → Store α × List SharedVector
  | [] => (s, [])
  | x :: xs =>
    let (s, v) := s.alloc x
    let (s, vs) := s.allocAll xs
    (s, v :: vs)

namespace BlockVector
variable {α : Type} [Zero α] [One α] [Add α] [Mul α] [Neg α] [BEq α]

/-- Evaluates the components of a block vector into fresh storage. -/
def toNested (s : Store α) (blocks : BlockVector α) :
    Except Error (Store α × NestedVector) := do
  let components ← eval blocks
  let (s, vs) := s.allocAll components
  pure (s, NestedVector.ofComponents s vs)

end BlockVector
end BlockSparse
