import BlockSparse.Expr.Shape
import BlockSparse.Value.Arithmetic

/-! Evaluation of expressions. The shape of the whole expression is inferred first; then operands
are evaluated from left to right, and a chain of factors is multiplied from the right. What
evaluation gives does not depend on the log it keeps, and `Expr.eval` leaves the log away. -/
namespace BlockSparse.Expr
variable {α : Type} [Zero α] [One α] [Add α] [Mul α] [Neg α] [BEq α]

mutual

/-- Evaluates an expression without inferring its shape first. -/
def run : Expr α → Logged α (Value α)
  | .scalar s => pure (.scalar s)
  | .matrix a => pure (.matrix a)
  | .vector x => pure (.vector x)
  | .product chain => runChain chain
  | .sum op e f => do
    let u ← run e
    let v ← run f
    Value.add op u v
  | .transpose e => do
    let u ← run e
    Value.transpose u
  | .operator op =>
    match op.matrix? with
    | some a => pure (.matrix a)
    | none => Logged.fail (.unsupported (.operator op.name))
  | .blockMatrix _ => Logged.fail (.unsupported .blockMatrix)
  | .blockVector _ => Logged.fail (.unsupported .blockVector)

/-- Evaluates the product of a chain of operands. -/
def runChain : List (Expr α) → Logged α (Value α)
  | [] => Logged.fail (.unsupported .emptyProduct)
  | [e] => run e
  | e :: f :: chain => do
    let u ← run e
    let v ← runChain (f :: chain)
    Value.mul u v

end

/-- Evaluates an expression, keeping a log. -/
def evalLogged (e : Expr α) : Logged α (Value α) := do
  let _ ← Logged.lift e.shape
  run e

/-- The value of an expression. -/
def eval (e : Expr α) : Except Error (Value α) := e.evalLogged.result

/-- Both operands of a sum are evaluated before they are added. -/
theorem result_run_sum (op : SumOp) (e f : Expr α) :
    (run (.sum op e f)).result = (do
      let u ← (run e).result
      let v ← (run f).result
      (Value.add op u v).result) := by
  simp [run]

theorem result_run_transpose (e : Expr α) :
    (run (.transpose e)).result = (run e).result >>= fun u => (Value.transpose u).result := by
  simp [run]

/-- The first operand of a product is evaluated before the rest of the chain. -/
theorem result_runChain_cons (e f : Expr α) (chain : List (Expr α)) :
    (runChain (e :: f :: chain)).result = (do
      let u ← (run e).result
      let v ← (runChain (f :: chain)).result
      (Value.mul u v).result) := by
  simp [runChain]

/-- Shape errors come before all others. -/
theorem eval_eq (e : Expr α) : e.eval = e.shape >>= fun _ => (run e).result := by
  simp [eval, evalLogged]

/-- No kernel is noted before the shape has been inferred. -/
theorem log_evalLogged_of_shape_error {e : Expr α} {err : Error} (h : e.shape = .error err) :
    e.evalLogged.log = [] := by
  simp [evalLogged, Logged.log_bind, h]

example : eval (.sum .subtract (.scalar 0) (.product [.scalar 2, .vector [1, (-3 : Int)]])) =
    .ok (.vector [-2, 6]) := rfl

end BlockSparse.Expr
