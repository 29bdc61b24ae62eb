import BlockSparse.Expr.Basic
import BlockSparse.Shape.Arithmetic

/-! Shape inference. The shape of an expression is found from the shapes of its leaves alone; `none`
is the shape of a scalar. A product is read from the right: the shape of the last operand comes
first, and each operand before it is multiplied onto the shape found so far. -/
namespace BlockSparse.Expr
variable {α : Type}

mutual

/-- The shape of an expression, or the first reason for which it has none. -/
def shape : Expr α → Except Error (Option Shape)
  | .scalar _ => .ok none
  | .matrix a => .ok (some a.shape)
  | .vector x => .ok (some (.vector x.length))
  | .product chain => chainShape chain
  | .sum op e f => do
    let s ← shape e
    let t ← shape f
    Shape.sum op.operation s t
  | .transpose e => do
    let s ← shape e
    Shape.transpose s
  | .operator op =>
    match op.matrix? with
    | some a => .ok (some a.shape)
    | none => .error (.unsupported (.operator op.name))
  | .blockMatrix _ => .error (.unsupported .blockMatrix)
  | .blockVector _ => .error (.unsupported .blockVector)

/-- The shape of the product of a chain of operands. -/
def chainShape : List (Expr α) → Except Error (Option Shape)
  | [] => .error (.unsupported .emptyProduct)
  | [e] => shape e
  | e :: f :: chain => do
    let t ← chainShape (f :: chain)
    let s ← shape e
    Shape.product s t

end

example : shape (.sum .add (.product [.matrix ⟨2, [[], []]⟩, .vector [1, 2]]) (.scalar (3 : Int))) =
    .ok (some (.vector 2)) := rfl

end BlockSparse.Expr
