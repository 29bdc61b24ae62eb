import BlockSparse.Proofs.DenseValue
import BlockSparse.Proofs.Sparse.Values
import BlockSparse.Proofs.Value.Cases

/-! The dense contents of a value. In exact arithmetic, what is computed on values holds of their
dense contents. -/
namespace BlockSparse.Value
variable {α : Type} [CommRing α] {u v w : Value α}

/-- The dense contents of a value: the same value with every entry written out. -/
def dense : Value α → DenseValue α
  | scalar s => .scalar s
  | matrix a => .table a.nrows a.ncols a.value
  | vector x => .vector x.get

@[simp] lemma kind_dense (v : Value α) : v.dense.kind = v.kind := by
  cases v <;> rfl

@[simp] lemma shape?_dense (v : Value α) : v.dense.shape? = v.shape? := by
  cases v <;> rfl

lemma dense_scalar (s : α) : (scalar s).dense = .scalar s := rfl

lemma dense_matrix (a : SparseMatrix α) : (matrix a).dense = .table a.nrows a.ncols a.value := rfl

lemma dense_vector (x : DenseVector α) :
    (vector x).dense = .column x.length fun i => x[i]?.getD 0 := by
  apply congrArg DenseValue.vector
  ext i
  simp

lemma dense_matrix_eq {a : SparseMatrix α} {m n : Nat} {f : Nat → Nat → α}
    (hshape : a.shape = .matrix m n) (h : ∀ i < m, ∀ j < n, a.value i j = f i j) :
    (matrix a).dense = .table m n f := by
  obtain ⟨hm, hn⟩ := Shape.matrix.inj hshape
  exact DenseValue.table_congr hm hn fun i hi j hj => h i (hm ▸ hi) j (hn ▸ hj)

lemma dense_vector_eq {x : DenseVector α} {n : Nat} {p : Nat → α} (hlen : x.length = n)
    (h : ∀ i < n, x[i]?.getD 0 = p i) : (vector x).dense = .column n p := by
  rw [dense_vector]
  exact DenseValue.column_congr hlen fun i hi => h i (hlen ▸ hi)

theorem dense_transpose (h : u.transpose.result = .ok w) :
    u.dense.transpose = some w.dense := by
  cases transposed_of_transpose h with
  | scalar s => rfl
  | matrix a =>
    rw [dense_matrix_eq (SparseMatrix.shape_transpose a) fun j hj i _ =>
      SparseMatrix.value_transpose a hj]
    rfl

lemma dense_scale (a : SparseMatrix α) (s : α) :
    (matrix (a.scale s)).dense = .table a.nrows a.ncols fun i j => s * a.value i j := by
  refine dense_matrix_eq (SparseMatrix.shape_scale a s) fun i _ j _ => ?_
  rw [SparseMatrix.value_scale, mul_comm]

lemma dense_vector_scale (x : DenseVector α) (s : α) :
    (vector (DenseVector.scale x s)).dense =
      .column x.length fun i => s * x[i]?.getD 0 := by
  refine dense_vector_eq (DenseVector.length_scale x s) fun i hi => ?_
  simp [DenseVector.scale, hi, mul_comm]

/-- A product of values holds of their dense contents. -/
theorem dense_mul (hu : u.WellFormed) (h : (mul u v).result = .ok w) :
    u.dense.mul v.dense = some w.dense := by
  cases multiplied_of_mul h with
  | scalars s t => rfl
  | scalarMatrix s b =>
    rw [dense_scale]
    rfl
  | matrixScalar a s =>
    rw [dense_scale]
    rfl
  | scalarVector s y =>
    rw [dense_vector_scale, dense_vector]
    rfl
  | vectorScalar x s =>
    rw [dense_vector_scale, dense_vector]
    rfl
  | matrices hc =>
    obtain ⟨hinner, hshape⟩ := SparseMatrix.shape_of_product hc
    rw [dense_matrix_eq hshape fun i _ j _ => SparseMatrix.value_product hu hc i j, dense_matrix,
      dense_matrix, ← hinner, DenseValue.mul_table_table]
  | matrixVector hy =>
    obtain ⟨hinner, hlen⟩ := SparseMatrix.shape_of_mulVec hy
    have hentry := fun i hi => congrArg (·.getD 0) (SparseMatrix.getElem?_mulVec hu hy (i := i) hi)
    rw [dense_vector_eq hlen hentry, dense_vector, dense_matrix, ← hinner,
      DenseValue.mul_table_column]
    rfl

lemma dense_axpy {a b c : SparseMatrix α} {factor : α} (h : a.axpy factor b = .ok c) :
    (matrix c).dense = .table a.nrows a.ncols fun i j => a.value i j + factor * b.value i j :=
  dense_matrix_eq (SparseMatrix.shape_of_axpy h).2 fun i _ j _ => SparseMatrix.value_axpy h i j

lemma dense_vector_axpy {x y z : DenseVector α} {factor : α}
    (h : DenseVector.axpy x factor y = .ok z) : (vector z).dense =
      .column x.length fun i => x[i]?.getD 0 + factor * y[i]?.getD 0 := by
  have hz : z.length = x.length := DenseVector.length_of_axpy h
  refine dense_vector_eq hz fun i hi => ?_
  unfold DenseVector.axpy at h
  split at h
  · rename_i hlen
    cases h
    have hiy : i < y.length := hlen ▸ hi
    simp [hi, hiy, add_comm]
  · cases h

lemma dense_addToZero_matrix {op : SumOp} {b : SparseMatrix α}
    (h : (addToZero op (matrix b)).result = .ok w) :
    w.dense = .table b.nrows b.ncols fun i j => 0 + op.factor * b.value i j := by
  cases op with
  | add =>
    cases h
    refine dense_matrix_eq rfl fun i _ j _ => ?_
    rw [SumOp.factor, one_mul, zero_add]
  | subtract =>
    cases h
    rw [dense_scale]
    simp only [SumOp.factor, zero_add]

lemma dense_addToZero_vector {op : SumOp} {y : DenseVector α}
    (h : (addToZero op (vector y)).result = .ok w) :
    w.dense = .column y.length fun i => 0 + op.factor * y[i]?.getD 0 := by
  cases op with
  | add =>
    cases h
    refine dense_vector_eq rfl fun i _ => ?_
    rw [SumOp.factor, one_mul, zero_add]
  | subtract =>
    cases h
    rw [dense_vector_scale]
    simp only [SumOp.factor, zero_add]

variable [DecidableEq α] {op : SumOp}

lemma dense_add_zeroLeft {t : Shape} (hv : v.shape? = some t)
    (h : (addToZero op v).result = .ok w) :
    (scalar 0).dense.add op v.dense = some w.dense := by
  cases v with
  | scalar s => cases hv
  | matrix b =>
    rw [dense_addToZero_matrix h, dense_scalar, dense_matrix,
      DenseValue.add_eq op (DenseValue.beside_zero_table _) rfl,
      DenseValue.entrywise_table op rfl rfl]
  | vector y =>
    rw [dense_addToZero_vector h, dense_scalar, dense_vector,
      DenseValue.add_eq op (DenseValue.beside_zero_column _) rfl,
      DenseValue.entrywise_column op rfl]

lemma dense_add_zeroRight {t : Shape} (hu : u.shape? = some t) :
    u.dense.add op (scalar 0).dense = some u.dense := by
  cases u with
  | scalar s => cases hu
  | matrix a =>
    rw [dense_scalar, dense_matrix, DenseValue.add_eq op rfl (DenseValue.beside_zero_table _),
      DenseValue.entrywise_table op rfl rfl]
    refine congrArg some (DenseValue.table_congr rfl rfl fun i _ j _ => ?_)
    rw [mul_zero, add_zero]
  | vector x =>
    rw [dense_scalar, dense_vector, DenseValue.add_eq op rfl (DenseValue.beside_zero_column _),
      DenseValue.entrywise_column op rfl]
    refine congrArg some (DenseValue.column_congr rfl fun i _ => ?_)
    rw [mul_zero, add_zero]

/-- A sum of values holds of their dense contents. -/
theorem dense_add (h : (add op u v).result = .ok w) : u.dense.add op v.dense = some w.dense := by
  cases summed_of_add h with
  | scalars s t => exact congrArg (some ∘ DenseValue.scalar) (op.combine_eq s t)
  | matrices hc =>
    obtain ⟨hm, hn⟩ := SparseMatrix.shape_eq_iff.1 (SparseMatrix.shape_of_axpy hc).1
    rw [dense_axpy hc, DenseValue.add_eq op rfl rfl]
    exact DenseValue.entrywise_table op hm hn _ _
  | vectors hz =>
    rw [dense_vector_axpy hz, dense_vector, dense_vector, DenseValue.add_eq op rfl rfl]
    exact DenseValue.entrywise_column op (DenseVector.length_eq_of_axpy hz) _ _
  | zeroLeft hs hv hw =>
    rw [eq_of_beq hs]
    exact dense_add_zeroLeft hv hw
  | zeroRight hu hs =>
    rw [eq_of_beq hs]
    exact dense_add_zeroRight hu
  | @identityLeft s b c hs hsq hc =>
    have hshape := (SparseMatrix.shape_of_axpy hc).2.trans (shape_scaledIdentity_of_square hsq s)
    rw [dense_scalar, dense_matrix,
      DenseValue.add_eq op (DenseValue.beside_table (ne_of_beq_false hs) hsq _) rfl,
      DenseValue.entrywise_table op rfl rfl]
    symm
    refine congrArg some (dense_matrix_eq hshape fun i hi j _ => ?_)
    rw [SparseMatrix.value_axpy hc, SparseMatrix.value_scaledIdentity s hi]
  | @identityRight a s c hs hsq hc =>
    rw [dense_scalar, dense_matrix,
      DenseValue.add_eq op rfl (DenseValue.beside_table (ne_of_beq_false hs) hsq _),
      DenseValue.entrywise_table op rfl rfl]
    symm
    refine congrArg some (dense_matrix_eq (SparseMatrix.shape_of_axpy hc).2 fun i hi j _ => ?_)
    rw [SparseMatrix.value_axpy hc, SparseMatrix.value_scaledIdentity s hi]

end BlockSparse.Value
