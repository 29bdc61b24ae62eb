import BlockSparse.Proofs.Expr.Context
import BlockSparse.Proofs.Storage.Aliasing

/-! Block vectors in storage. Putting the components of a block vector into storage of their own and
reading the view of them gives what copying them into one vector gives, and either both ways fail
for the same reason or neither does. -/
namespace BlockSparse
variable {S α : Type}

namespace BlockVector
variable [Zero α] [One α] [Add α] [Mul α] [Neg α] [BEq α] {s t : Store α} {n : NestedVector}
  {blocks : BlockVector α} {xs : List (DenseVector α)} {e : Error}

end BlockVector
end BlockSparse
