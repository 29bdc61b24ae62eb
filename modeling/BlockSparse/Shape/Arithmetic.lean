import BlockSparse.Error

/-! Shapes of products, sums and transposes. An operand without shape is a scalar: in a product it
leaves the other shape unchanged, in a sum it stands for a multiple of the identity. -/
namespace BlockSparse.Shape

/-- The shape of a product, where the inner sizes have to agree. -/
def product : Option Shape → Option Shape → Except Error (Option Shape)
  | none, s => .ok s
  | s, none => .ok s
  | some (.matrix m k), some (.matrix k' n) =>
    if k = k' then .ok (some (.matrix m n))
    else .error (.incompatibleShapes .multiply (.matrix m k) (.matrix k' n))
  | some (.matrix m k), some (.vector n) =>
    if k = n then .ok (some (.vector m))
    else .error (.incompatibleShapes .multiply (.matrix m k) (.vector n))
  | some (.vector n), some s => .error (.incompatibleShapes .multiply (.vector n) s)

/-- The shape of a sum or difference, where the two shapes have to be the same. -/
def sum (operation : Operation) : Option Shape → Option Shape → Except Error (Option Shape)
  | none, s => .ok s
  | s, none => .ok s
  | some s, some t =>
    if s = t then .ok (some s) else .error (.incompatibleShapes operation s t)

/-- The shape of a transpose; a vector has none. -/
def transpose : Option Shape → Except Error (Option Shape)
  | none => .ok none
  | some (.matrix r c) => .ok (some (.matrix c r))
  | some (.vector _) => .error (.unsupported .vectorTranspose)

@[simp] theorem product_none_left (s : Option Shape) : product none s = .ok s := rfl

@[simp] theorem product_none_right (s : Option Shape) : product s none = .ok s := by
  rcases s with _ | (_ | _) <;> rfl

@[simp] theorem sum_none_left (o : Operation) (s : Option Shape) : sum o none s = .ok s := rfl

@[simp] theorem sum_none_right (o : Operation) (s : Option Shape) : sum o s none = .ok s := by
  cases s <;> rfl

theorem sum_self (o : Operation) (s : Shape) : sum o (some s) (some s) = .ok (some s) := if_pos rfl

end BlockSparse.Shape
