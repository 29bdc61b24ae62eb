import BlockSparse.Expr.Eval
import BlockSparse.Proofs.Traversal

/-! The structure of expressions and of their evaluation: induction over expressions, and for each
construction what its successful evaluation says of the parts. -/
namespace BlockSparse.Expr
variable {α : Type}

/-- Induction over an expression, where the operands of a chain, the cells of a grid and the blocks
of a vector are reached through membership. -/
@[elab_as_elim, induction_eliminator]
theorem induction {motive : Expr α → Prop} (scalar : ∀ s, motive (scalar s))
    (matrix : ∀ a, motive (matrix a)) (vector : ∀ x, motive (vector x))
    (product : ∀ chain, (∀ e ∈ chain, motive e) → motive (product chain))
    (sum : ∀ op e f, motive e → motive f → motive (sum op e f))
    (transpose : ∀ e, motive e → motive (transpose e)) (operator : ∀ op, motive (operator op))
    (blockMatrix : ∀ grid : Grid (Expr α), (∀ e ∈ grid.cells, motive e) →
      motive (blockMatrix grid))
    (blockVector : ∀ blocks, (∀ e ∈ blocks, motive e) → motive (blockVector blocks)) :
    ∀ e, motive e
  | .scalar s => scalar s
  | .matrix a => matrix a
  | .vector x => vector x
  | .product chain => product chain fun e _ =>
    induction scalar matrix vector product sum transpose operator blockMatrix blockVector e
  | .sum op e f => sum op e f
    (induction scalar matrix vector product sum transpose operator blockMatrix blockVector e)
    (induction scalar matrix vector product sum transpose operator blockMatrix blockVector f)
  | .transpose e => transpose e
    (induction scalar matrix vector product sum transpose operator blockMatrix blockVector e)
  | .operator op => operator op
  | .blockMatrix ⟨_, _, cells⟩ => blockMatrix _ fun e _ =>
    induction scalar matrix vector product sum transpose operator blockMatrix blockVector e
  | .blockVector blocks => blockVector blocks fun e _ =>
    induction scalar matrix vector product sum transpose operator blockMatrix blockVector e
termination_by e => sizeOf e

section Shape
variable {s : Option Shape}

lemma exists_of_shape_sum {op : SumOp} {e f : Expr α} (h : (sum op e f).shape = .ok s) :
    ∃ t u, e.shape = .ok t ∧ f.shape = .ok u ∧ Shape.sum op.operation t u = .ok s := by
  rw [shape, Traversal.bind_eq_ok_iff] at h
  obtain ⟨t, ht, h⟩ := h
  obtain ⟨u, hu, h⟩ := Traversal.bind_eq_ok_iff.1 h
  exact ⟨t, u, ht, hu, h⟩

lemma exists_of_shape_transpose {e : Expr α} (h : (transpose e).shape = .ok s) :
    ∃ t, e.shape = .ok t ∧ Shape.transpose t = .ok s := by
  rwa [shape, Traversal.bind_eq_ok_iff] at h

lemma exists_of_chainShape_cons {e f : Expr α} {chain : List (Expr α)}
    (h : chainShape (e :: f :: chain) = .ok s) :
    ∃ t u, e.shape = .ok t ∧ chainShape (f :: chain) = .ok u ∧ Shape.product t u = .ok s := by
  rw [chainShape, Traversal.bind_eq_ok_iff] at h
  obtain ⟨u, hu, h⟩ := h
  obtain ⟨t, ht, h⟩ := Traversal.bind_eq_ok_iff.1 h
  exact ⟨t, u, ht, hu, h⟩

end Shape

section Run
variable [Zero α] [One α] [Add α] [Mul α] [Neg α] [BEq α] {v : Value α}

lemma exists_of_run_sum {op : SumOp} {e f : Expr α} (h : (run (.sum op e f)).result = .ok v) :
    ∃ u w, (run e).result = .ok u ∧ (run f).result = .ok w ∧
      (Value.add op u w).result = .ok v := by
  rw [result_run_sum, Traversal.bind_eq_ok_iff] at h
  obtain ⟨u, hu, h⟩ := h
  obtain ⟨w, hw, h⟩ := Traversal.bind_eq_ok_iff.1 h
  exact ⟨u, w, hu, hw, h⟩

lemma exists_of_run_transpose {e : Expr α} (h : (run (.transpose e)).result = .ok v) :
    ∃ u, (run e).result = .ok u ∧ u.transpose.result = .ok v := by
  rwa [result_run_transpose, Traversal.bind_eq_ok_iff] at h

lemma exists_of_run_operator {op : LinearOperator α} (h : (run (.operator op)).result = .ok v) :
    ∃ a, op.matrix? = some a ∧ v = .matrix a := by
  rw [run] at h
  cases hm : op.matrix? with
  | none =>
    rw [hm] at h
    cases h
  | some a =>
    rw [hm] at h
    cases h
    exact ⟨a, rfl, rfl⟩

lemma exists_of_runChain_cons {e f : Expr α} {chain : List (Expr α)}
    (h : (runChain (e :: f :: chain)).result = .ok v) :
    ∃ u w, (run e).result = .ok u ∧ (runChain (f :: chain)).result = .ok w ∧
      (Value.mul u w).result = .ok v := by
  rw [result_runChain_cons, Traversal.bind_eq_ok_iff] at h
  obtain ⟨u, hu, h⟩ := h
  obtain ⟨w, hw, h⟩ := Traversal.bind_eq_ok_iff.1 h
  exact ⟨u, w, hu, hw, h⟩

lemma run_of_eval {e : Expr α} (h : e.eval = .ok v) : (run e).result = .ok v := by
  rw [eval_eq, Traversal.bind_eq_ok_iff] at h
  obtain ⟨_, _, h⟩ := h
  exact h

end Run

end BlockSparse.Expr
