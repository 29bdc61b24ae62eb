import BlockSparse.Block.Sizes
import BlockSparse.Expr.Eval

/-! Block vectors: lists of vector-valued expressions, laid out one after another. -/
namespace BlockSparse.BlockVector
variable {α : Type} [Zero α] [One α] [Add α] [Mul α] [Neg α] [BEq α]

/-- The vector to which a component evaluates. -/
def evalComponent (e : Expr α) : Logged α (DenseVector α) := do
  match ← e.run with
  | .vector x => pure x
  | v => Logged.fail (.unsupported (.component v.kind))

/-- The vectors to which the components evaluate, once all of them are known to be vectors. -/
def evalLogged (blocks : BlockVector α) : Logged α (List (DenseVector α)) := do
  let _ ← Logged.lift (sizes blocks)
  blocks.mapM evalComponent

/-- The vectors to which the components evaluate. -/
def eval (blocks : BlockVector α) : Except Error (List (DenseVector α)) :=
  (evalLogged blocks).result

/-- Evaluates components of the given sizes and copies them into a vector, the first one to the
given place and each of the others behind the one before it. -/
def copyAll (start : Nat) (flat : DenseVector α) : List (Expr α × Nat) → Logged α (DenseVector α)
  | [] => pure flat
  | (e, size) :: rest => do
    let x ← evalComponent e
    copyAll (start + size) (Offsets.paste flat start x) rest

/-- The components one after another in a single vector, which is made as long as they are known to
be together before the first one is evaluated. -/
def flattenLogged (blocks : BlockVector α) : Logged α (DenseVector α) := do
  let sizes ← Logged.lift (sizes blocks)
  copyAll 0 (List.replicate (Offsets.total sizes) 0) (blocks.zip sizes)

/-- The concatenation of the components. -/
def flatten (blocks : BlockVector α) : Except Error (DenseVector α) := (flattenLogged blocks).result

/-- All components are known to be vectors before the first one is evaluated. -/
theorem eval_eq (blocks : BlockVector α) :
    eval blocks = (do
      let _ ← sizes blocks
      blocks.mapM fun e => (evalComponent e).result) := by
  simp [eval, evalLogged]

end BlockSparse.BlockVector
