import BlockSparse.Expr.Assemble
import BlockSparse.Proofs.Block.Flatten
import BlockSparse.Proofs.Grid
import Mathlib.Algebra.Ring.Int.Defs

/-! Expressions with a hole. What fills the hole matters only through its shape and its value, so an
expression that has been evaluated may be replaced by the leaf of its value: what surrounds it is
evaluated to the same value or fails with the same error. The same holds of assembly by any strategy
when the hole is in a cell of a grid or in a component of a block vector. -/
namespace BlockSparse
variable {α : Type}

namespace Expr

/-- An expression with a hole in it. -/
inductive Context (α : Type) where
  | hole
  | product (before : List (Expr α)) (inner : Context α) (after : List (Expr α))
  | sumLeft (op : SumOp) (inner : Context α) (right : Expr α)
  | sumRight (op : SumOp) (left : Expr α) (inner : Context α)
  | transpose (inner : Context α)
  | cell (numRows numCols : Nat) (before : List (Expr α)) (inner : Context α)
    (after : List (Expr α))
  | component (before : List (Expr α)) (inner : Context α) (after : List (Expr α))

/-- The expression that arises when the hole is filled. -/
def Context.fill : Context α → Expr α → Expr α
  | hole, e => e
  | product before inner after, e => .product (before ++ inner.fill e :: after)
  | sumLeft op inner right, e => .sum op (inner.fill e) right
  | sumRight op left inner, e => .sum op left (inner.fill e)
  | transpose inner, e => .transpose (inner.fill e)
  | cell numRows numCols before inner after, e =>
    .blockMatrix ⟨numRows, numCols, before ++ inner.fill e :: after⟩
  | component before inner after, e => .blockVector (before ++ inner.fill e :: after)

variable [Zero α] [One α] [Add α] [Mul α] [Neg α] [BEq α]
variable {e e' f f' : Expr α} {chain chain' : List (Expr α)}

/-- Expressions of one shape that evaluate to one value or fail alike. -/
structure Interchangeable (e f : Expr α) : Prop where
  shape : e.shape = f.shape
  run : e.run.result = f.run.result

namespace Interchangeable

lemma refl (e : Expr α) : Interchangeable e e := ⟨rfl, rfl⟩

/-- An expression that evaluates and the leaf of its value. -/
lemma of_eval {v : Value α} (h : e.eval = .ok v) : Interchangeable v.toExpr e where
  shape := by
    rw [shape_of_eval h]
    cases v <;> rfl
  run := by
    rw [run_of_eval h]
    cases v <;> rfl

lemma eval (h : Interchangeable e f) : e.eval = f.eval := by
  rw [eval_eq, eval_eq, h.shape, h.run]

lemma replace (h : Interchangeable e f) (before after : List (Expr α)) :
    List.Forall₂ Interchangeable (before ++ e :: after) (before ++ f :: after) :=
  List.rel_append (List.forall₂_same.2 fun g _ => refl g)
    (.cons h (List.forall₂_same.2 fun g _ => refl g))

lemma chainShape (h : List.Forall₂ Interchangeable chain chain') :
    chainShape chain = chainShape chain' := by
  induction h with
  | nil => rfl
  | cons he hrest ih =>
    cases hrest with
    | nil => exact he.shape
    | cons hf hrest => rw [Expr.chainShape, Expr.chainShape, he.shape, ih]

lemma runChain (h : List.Forall₂ Interchangeable chain chain') :
    (runChain chain).result = (runChain chain').result := by
  induction h with
  | nil => rfl
  | cons he hrest ih =>
    cases hrest with
    | nil => exact he.run
    | cons hf hrest => rw [result_runChain_cons, result_runChain_cons, he.run, ih]

lemma product (h : List.Forall₂ Interchangeable chain chain') :
    Interchangeable (.product chain) (.product chain') := ⟨chainShape h, runChain h⟩

lemma sum (op : SumOp) (he : Interchangeable e e') (hf : Interchangeable f f') :
    Interchangeable (.sum op e f) (.sum op e' f') where
  shape := by rw [Expr.shape, Expr.shape, he.shape, hf.shape]
  run := by rw [result_run_sum, result_run_sum, he.run, hf.run]

lemma transpose (h : Interchangeable e e') :
    Interchangeable (.transpose e) (.transpose e') where
  shape := by rw [Expr.shape, Expr.shape, h.shape]
  run := by rw [result_run_transpose, result_run_transpose, h.run]

/-- What may stand for each other in the hole leaves expressions that may as well. -/
theorem fill (C : Context α) (h : Interchangeable e f) :
    Interchangeable (C.fill e) (C.fill f) := by
  induction C with
  | hole => exact h
  | product before inner after ih => exact product (ih.replace before after)
  | sumLeft op inner right ih => exact sum op ih (refl right)
  | sumRight op left inner ih => exact sum op (refl left) ih
  | transpose inner ih => exact transpose ih
  | cell numRows numCols before inner after ih => exact ⟨rfl, rfl⟩
  | component before inner after ih => exact ⟨rfl, rfl⟩

end Interchangeable
end Expr

open BlockSparse.Expr (Interchangeable)

variable [Zero α] [One α] [Add α] [Mul α] [Neg α] [BEq α]

namespace BlockMatrix
variable {nr nc : Nat} {cells cells' : List (Expr α)}

lemma sizes_congr (h : List.Forall₂ Interchangeable cells cells') :
    sizes ⟨nr, nc, cells⟩ = sizes ⟨nr, nc, cells'⟩ := by
  rw [sizes, sizes, Grid.traverse_congr (fun _ _ _ _ he => he.shape) h]

lemma resolve_congr (h : List.Forall₂ Interchangeable cells cells') :
    resolve ⟨nr, nc, cells⟩ = resolve ⟨nr, nc, cells'⟩ := by
  rw [resolve_eq, resolve_eq, sizes_congr h]
  congr 1
  funext sizes
  rw [Grid.traverse_congr (fun _ _ _ _ he => by rw [he.run]) h]

lemma assemble_congr (h : List.Forall₂ Interchangeable cells cells') (strategy : Strategy) :
    assemble ⟨nr, nc, cells⟩ strategy = assemble ⟨nr, nc, cells'⟩ strategy := by
  rw [assemble_eq, assemble_eq, resolve_congr h]

end BlockMatrix

namespace BlockVector
variable {blocks blocks' : BlockVector α}

lemma sizes_congr (h : List.Forall₂ Interchangeable blocks blocks') :
    sizes blocks = sizes blocks' := by
  have hsizes : ∀ k, ((blocks.zipIdx k).mapM fun p => componentSize p.2 p.1) =
      (blocks'.zipIdx k).mapM fun p => componentSize p.2 p.1 := by
    induction h with
    | nil => exact fun _ => rfl
    | cons he _ ih =>
      intro k
      simp only [List.zipIdx_cons, List.mapM_cons]
      rw [componentSize, componentSize, he.shape, ih (k + 1)]
  exact hsizes 0

lemma flatten_congr (h : List.Forall₂ Interchangeable blocks blocks') :
    flatten blocks = flatten blocks' := by
  have hvalues : (blocks.mapM fun e => (evalComponent e).result) =
      blocks'.mapM fun e => (evalComponent e).result := by
    induction h with
    | nil => rfl
    | cons he _ ih =>
      rw [List.mapM_cons, List.mapM_cons, ih, result_evalComponent, result_evalComponent, he.run]
  rw [flatten_eq, flatten_eq, eval_eq, eval_eq, sizes_congr h, hvalues]

end BlockVector

namespace Expr
variable {e f : Expr α}

lemma assemble_eq_eval (h : e.isBlock = false) (strategy : Strategy) :
    e.assemble strategy = Assembled.value <$> e.eval := by
  cases e with
  | blockMatrix grid => cases h
  | blockVector blocks => cases h
  | _ => simp only [assemble, assembleLogged, Logged.result_bind, Logged.result_pure, eval]; rfl

lemma assemble_blockVector (blocks : List (Expr α)) (strategy : Strategy) :
    (blockVector blocks).assemble strategy =
      (fun x => .value (.vector x)) <$> BlockVector.flatten blocks := by
  simp only [assemble, assembleLogged, Logged.result_bind, Logged.result_note, Logged.result_pure]
  rfl

lemma isBlock_of_eval {v : Value α} (h : e.eval = .ok v) : e.isBlock = false := by
  cases e with
  | blockMatrix grid => cases h
  | blockVector blocks => cases h
  | _ => rfl

/-- An expression that evaluates may be replaced by the leaf of its value, wherever it stands: the
whole is evaluated, and assembled by any strategy, to the same result or with the same error. -/
theorem fill_toExpr {v : Value α} (h : e.eval = .ok v) (C : Context α) :
    (C.fill v.toExpr).eval = (C.fill e).eval ∧
      ∀ strategy, (C.fill v.toExpr).assemble strategy = (C.fill e).assemble strategy := by
  have hleaf := Interchangeable.of_eval h
  have heval := (Interchangeable.fill C hleaf).eval
  refine ⟨heval, fun strategy => ?_⟩
  cases C with
  | cell numRows numCols before inner after =>
    exact BlockMatrix.assemble_congr ((Interchangeable.fill inner hleaf).replace before after)
      strategy
  | component before inner after =>
    have hflat := BlockVector.flatten_congr
      ((Interchangeable.fill inner hleaf).replace before after)
    rw [Context.fill, Context.fill, assemble_blockVector, assemble_blockVector, hflat]
  | hole =>
    have hvalue : v.toExpr.isBlock = false := by cases v <;> rfl
    rw [Context.fill, Context.fill, assemble_eq_eval hvalue, assemble_eq_eval (isBlock_of_eval h),
      hleaf.eval]
  | _ => rw [assemble_eq_eval rfl, assemble_eq_eval rfl, heval]

/-- A row of two cells with a hole in the first one: a transposed product. -/
def heldProduct : Context Int := .cell 1 2 [] (.transpose (.product [.scalar 2] .hole
  [.matrix ⟨1, [[(0, 3)], [], [(0, 1)]]⟩])) [.matrix ⟨2, [[(0, 1)]]⟩]

/-- The identity plus a strictly lower triangular matrix of order three. -/
def unitLower : Expr Int := .sum .add (.scalar 1) (.matrix ⟨3, [[], [(0, 5)], [(1, 0)]]⟩)

theorem fill_toExpr_unitLower :
    unitLower.eval = .ok (.matrix ⟨3, [[(0, 1)], [(0, 5), (1, 1)], [(1, 0), (2, 1)]]⟩) ∧
    ∀ strategy, (heldProduct.fill (.matrix ⟨3, [[(0, 1)], [(0, 5), (1, 1)],
      [(1, 0), (2, 1)]]⟩)).assemble strategy = (heldProduct.fill unitLower).assemble strategy := by
  have heval : unitLower.eval =
    .ok (.matrix ⟨3, [[(0, 1)], [(0, 5), (1, 1)], [(1, 0), (2, 1)]]⟩) := rfl
  exact ⟨heval, (fill_toExpr heval heldProduct).2⟩

end Expr
end BlockSparse
