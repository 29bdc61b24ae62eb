import BlockSparse.Proofs.Sparse.Kernels
import BlockSparse.Proofs.Traversal
import BlockSparse.Shape.Arithmetic
import BlockSparse.Value.Arithmetic

/-! What the arithmetic of values gives. If the shapes of the operands fit together, products and
transposes exist and have the shape foreseen for them. Sums do too, unless a nonzero scalar stands
beside a vector or beside a matrix that is not square. -/
namespace BlockSparse.Value
variable {α : Type}

/-- The error for a nonzero scalar beside a vector or beside a matrix that is not square. What is
said of a vector depends on the operation and on the side. -/
inductive Misfit (cause : Unsupported) : Shape → Error → Prop
  | vector (n : Nat) : Misfit cause (.vector n) (.unsupported cause)
  | matrix {rows cols : Nat} (h : rows ≠ cols) :
    Misfit cause (.matrix rows cols) (.nonSquareIdentity rows cols)

lemma shape?_eq_none_iff {v : Value α} : v.shape? = none ↔ ∃ s, v = scalar s := by
  cases v <;> simp

lemma Misfit.unique {cause : Unsupported} {t : Shape} {e e' : Error} (h : Misfit cause t e)
    (h' : Misfit cause t e') : e = e' := by
  cases h <;> cases h' <;> rfl

lemma transpose_outcome {u : Value α} {t : Option Shape} (h : Shape.transpose u.shape? = .ok t) :
    ∃ w, u.transpose.result = .ok w ∧ w.shape? = t := by
  cases u with
  | scalar s =>
    cases h
    exact ⟨scalar s, rfl, rfl⟩
  | matrix a =>
    cases h
    exact ⟨matrix a.transpose, rfl, congrArg some (SparseMatrix.shape_transpose a)⟩
  | vector x => cases h

lemma promote_of_square {a : SparseMatrix α} (h : a.nrows = a.ncols) (s : α) :
    promote s a = .ok (SparseMatrix.scaledIdentity a.nrows s) := if_pos h

lemma promote_of_not_square {a : SparseMatrix α} (h : a.nrows ≠ a.ncols) (s : α) :
    promote s a = .error (.nonSquareIdentity a.nrows a.ncols) := if_neg h

lemma promote_eq_ok_iff {a b : SparseMatrix α} {s : α} :
    promote s a = .ok b ↔ a.nrows = a.ncols ∧ b = SparseMatrix.scaledIdentity a.nrows s := by
  unfold promote
  split
  · rename_i h
    simp [h, eq_comm]
  · rename_i h
    simp [h]

lemma shape_scaledIdentity_of_square {a : SparseMatrix α} (h : a.nrows = a.ncols) (s : α) :
    (SparseMatrix.scaledIdentity a.nrows s).shape = a.shape := by
  rw [SparseMatrix.shape_scaledIdentity, SparseMatrix.shape, ← h]

variable [Zero α] [One α] [Add α] [Mul α]

@[simp] lemma result_mul_matrix_matrix (a b : SparseMatrix α) :
    (mul (matrix a) (matrix b)).result = matrix <$> a.product b := by
  simp only [mul, Logged.result_bind, Logged.result_note, Logged.result_lift, Logged.result_pure]
  cases a.product b <;> rfl

@[simp] lemma result_mul_matrix_vector (a : SparseMatrix α) (x : DenseVector α) :
    (mul (matrix a) (vector x)).result = vector <$> a.mulVec x := by
  simp only [mul, Logged.result_bind, Logged.result_note, Logged.result_lift, Logged.result_pure]
  cases a.mulVec x <;> rfl

lemma mul_outcome {u v : Value α} {t : Option Shape}
    (h : Shape.product u.shape? v.shape? = .ok t) :
    ∃ w, (mul u v).result = .ok w ∧ w.shape? = t := by
  cases u with
  | scalar s =>
    cases h
    cases v with
    | scalar s' => exact ⟨_, rfl, rfl⟩
    | matrix b => exact ⟨matrix (b.scale s), rfl, congrArg some (SparseMatrix.shape_scale b s)⟩
    | vector y =>
      exact ⟨vector (DenseVector.scale y s), rfl,
        congrArg (some ∘ Shape.vector) (DenseVector.length_scale y s)⟩
  | matrix a =>
    cases v with
    | scalar s =>
      cases h
      exact ⟨matrix (a.scale s), rfl, congrArg some (SparseMatrix.shape_scale a s)⟩
    | matrix b =>
      simp only [shape?_matrix, SparseMatrix.shape, Shape.product] at h
      split at h
      · rename_i hinner
        cases h
        obtain ⟨c, hc, hshape⟩ := SparseMatrix.product_outcome hinner
        exact ⟨matrix c, by rw [result_mul_matrix_matrix, hc]; rfl, congrArg some hshape⟩
      · cases h
    | vector y =>
      simp only [shape?_matrix, shape?_vector, SparseMatrix.shape, Shape.product] at h
      split at h
      · rename_i hinner
        cases h
        obtain ⟨z, hz, hlen⟩ := SparseMatrix.mulVec_outcome hinner
        exact ⟨vector z, by rw [result_mul_matrix_vector, hz]; rfl, by simp [hlen]⟩
      · cases h
  | vector x =>
    cases v with
    | scalar s =>
      cases h
      exact ⟨vector (DenseVector.scale x s), rfl,
        congrArg (some ∘ Shape.vector) (DenseVector.length_scale x s)⟩
    | matrix b => cases h
    | vector y => cases h

variable [Neg α]

lemma addToZero_outcome (op : SumOp) (v : Value α) :
    ∃ w, (addToZero op v).result = .ok w ∧ w.shape? = v.shape? := by
  cases op with
  | add => exact ⟨v, rfl, rfl⟩
  | subtract => exact mul_outcome (Shape.product_none_left v.shape?)

lemma result_addNonzero_scalar_matrix (op : SumOp) (s : α) (b : SparseMatrix α) :
    (addNonzero op (scalar s) (matrix b)).result =
      promote s b >>= fun a => matrix <$> a.axpy op.factor b := by
  change (promote s b >>= fun a => a.axpy op.factor b >>= fun c => pure (matrix c)) = _
  simp only [map_eq_pure_bind]

lemma result_addNonzero_matrix_scalar (op : SumOp) (a : SparseMatrix α) (s : α) :
    (addNonzero op (matrix a) (scalar s)).result =
      promote s a >>= fun b => matrix <$> a.axpy op.factor b := by
  change (promote s a >>= fun b => a.axpy op.factor b >>= fun c => pure (matrix c)) = _
  simp only [map_eq_pure_bind]

/-- A nonzero scalar on the left is added unless it is a misfit. -/
lemma addNonzero_left_outcome (op : SumOp) (s : α) {v : Value α} {t : Shape}
    (h : v.shape? = some t) :
    (∃ w, (addNonzero op (scalar s) v).result = .ok w ∧ w.shape? = some t ∧
      ∀ e, ¬ Misfit (.pair op.operation .scalar .vector) t e) ∨
    ∃ e, (addNonzero op (scalar s) v).result = .error e ∧
      Misfit (.pair op.operation .scalar .vector) t e := by
  cases v with
  | scalar s' => cases h
  | matrix b =>
    cases h
    by_cases hsq : b.nrows = b.ncols
    · left
      obtain ⟨c, hc, hshape⟩ :=
        SparseMatrix.axpy_outcome (shape_scaledIdentity_of_square hsq s) op.factor
      refine ⟨matrix c, ?_, ?_, ?_⟩
      · rw [result_addNonzero_scalar_matrix, promote_of_square hsq]
        change matrix <$> SparseMatrix.axpy _ _ _ = _
        rw [hc]
        rfl
      · exact congrArg some (hshape.trans (shape_scaledIdentity_of_square hsq s))
      · intro e he
        cases he with
        | matrix hne => exact hne hsq
    · right
      refine ⟨_, ?_, .matrix hsq⟩
      rw [result_addNonzero_scalar_matrix, promote_of_not_square hsq]
      rfl
  | vector y =>
    cases h
    exact .inr ⟨_, rfl, .vector _⟩

/-- A nonzero scalar on the right is added unless it is a misfit. -/
lemma addNonzero_right_outcome (op : SumOp) (s : α) {u : Value α} {t : Shape}
    (h : u.shape? = some t) :
    (∃ w, (addNonzero op u (scalar s)).result = .ok w ∧ w.shape? = some t ∧
      ∀ e, ¬ Misfit (.pair op.operation .vector .scalar) t e) ∨
    ∃ e, (addNonzero op u (scalar s)).result = .error e ∧
      Misfit (.pair op.operation .vector .scalar) t e := by
  cases u with
  | scalar s' => cases h
  | matrix a =>
    cases h
    by_cases hsq : a.nrows = a.ncols
    · left
      obtain ⟨c, hc, hshape⟩ :=
        SparseMatrix.axpy_outcome (shape_scaledIdentity_of_square hsq s).symm op.factor
      refine ⟨matrix c, ?_, congrArg some hshape, ?_⟩
      · rw [result_addNonzero_matrix_scalar, promote_of_square hsq]
        change matrix <$> SparseMatrix.axpy _ _ _ = _
        rw [hc]
        rfl
      · intro e he
        cases he with
        | matrix hne => exact hne hsq
    · right
      refine ⟨_, ?_, .matrix hsq⟩
      rw [result_addNonzero_matrix_scalar, promote_of_not_square hsq]
      rfl
  | vector x =>
    cases h
    exact .inr ⟨_, rfl, .vector _⟩

variable [BEq α]

@[simp] lemma result_add_matrix (op : SumOp) (a b : SparseMatrix α) :
    (add op (matrix a) (matrix b)).result = matrix <$> a.axpy op.factor b := by
  simp only [add, Logged.result_bind, Logged.result_note, Logged.result_lift, Logged.result_pure]
  cases a.axpy op.factor b <;> rfl

@[simp] lemma result_add_vector (op : SumOp) (x y : DenseVector α) :
    (add op (vector x) (vector y)).result = vector <$> DenseVector.axpy x op.factor y := by
  simp only [add, Logged.result_bind, Logged.result_lift, Logged.result_pure]
  cases DenseVector.axpy x op.factor y <;> rfl

lemma add_scalar_left (op : SumOp) (s : α) {v : Value α} {t : Shape} (h : v.shape? = some t) :
    add op (scalar s) v = if s == 0 then addToZero op v else addNonzero op (scalar s) v := by
  cases v with
  | scalar s' => cases h
  | matrix b => rfl
  | vector y => rfl

lemma add_scalar_right (op : SumOp) (s : α) {u : Value α} {t : Shape} (h : u.shape? = some t) :
    add op u (scalar s) = if s == 0 then pure u else addNonzero op u (scalar s) := by
  cases u with
  | scalar s' => cases h
  | matrix a => rfl
  | vector x => rfl

/-- Values that both have a shape are added if it is the same one. -/
lemma add_shaped_outcome (op : SumOp) {u v : Value α} {t : Shape} (hu : u.shape? = some t)
    (hv : v.shape? = some t) : ∃ w, (add op u v).result = .ok w ∧ w.shape? = some t := by
  cases u with
  | scalar s => cases hu
  | matrix a =>
    cases v with
    | scalar s => cases hv
    | matrix b =>
      have hshape : a.shape = b.shape := Option.some.inj (hu.trans hv.symm)
      obtain ⟨c, hc, hcshape⟩ := SparseMatrix.axpy_outcome hshape op.factor
      refine ⟨matrix c, ?_, (congrArg some hcshape).trans hu⟩
      rw [result_add_matrix, hc]
      rfl
    | vector y =>
      cases hu
      cases hv
  | vector x =>
    cases v with
    | scalar s => cases hv
    | matrix b =>
      cases hu
      cases hv
    | vector y =>
      have hlen : x.length = y.length := Shape.vector.inj (Option.some.inj (hu.trans hv.symm))
      have hz := DenseVector.axpy_of_length_eq hlen op.factor
      have hzlen := DenseVector.length_of_axpy hz
      refine ⟨vector _, ?_, (congrArg (some ∘ Shape.vector) hzlen).trans hu⟩
      rw [result_add_vector, hz]
      rfl

end BlockSparse.Value
