import BlockSparse.Proofs.Value.Outcome

/-! How the result of an operation on values came about: for each operation, what its operands and
its result can be. Results are well formed if the operands are. -/
namespace BlockSparse.Value
variable {α : Type} {u v w : Value α}

/-- A value and its transpose. -/
inductive Transposed : Value α → Value α → Prop
  | scalar (s : α) : Transposed (.scalar s) (.scalar s)
  | matrix (a : SparseMatrix α) : Transposed (.matrix a) (.matrix a.transpose)

theorem transposed_of_transpose (h : u.transpose.result = .ok w) : Transposed u w := by
  cases u with
  | scalar s =>
    cases h
    exact .scalar s
  | matrix a =>
    cases h
    exact .matrix a
  | vector x => cases h

lemma transpose_of_transposed (h : Transposed u w) : u.transpose.result = .ok w := by
  cases h <;> rfl

theorem wellFormed_transpose (h : u.transpose.result = .ok w) : w.WellFormed := by
  cases transposed_of_transpose h with
  | scalar s => trivial
  | matrix a => exact SparseMatrix.wellFormed_transpose a

lemma shape_of_transpose (h : u.transpose.result = .ok w) :
    Shape.transpose u.shape? = .ok w.shape? := by
  cases transposed_of_transpose h with
  | scalar s => rfl
  | matrix a =>
    rw [shape?_matrix, shape?_matrix, SparseMatrix.shape_transpose]
    rfl

variable [Zero α] [One α] [Add α] [Mul α]

/-- Two values and their product. -/
inductive Multiplied : Value α → Value α → Value α → Prop
  | scalars (s t : α) : Multiplied (scalar s) (scalar t) (scalar (s * t))
  | scalarMatrix (s : α) (b : SparseMatrix α) :
    Multiplied (scalar s) (matrix b) (matrix (b.scale s))
  | matrixScalar (a : SparseMatrix α) (s : α) :
    Multiplied (matrix a) (scalar s) (matrix (a.scale s))
  | scalarVector (s : α) (y : DenseVector α) :
    Multiplied (scalar s) (vector y) (vector (DenseVector.scale y s))
  | vectorScalar (x : DenseVector α) (s : α) :
    Multiplied (vector x) (scalar s) (vector (DenseVector.scale x s))
  | matrices {a b c : SparseMatrix α} (h : a.product b = .ok c) :
    Multiplied (matrix a) (matrix b) (matrix c)
  | matrixVector {a : SparseMatrix α} {x y : DenseVector α} (h : a.mulVec x = .ok y) :
    Multiplied (matrix a) (vector x) (vector y)

theorem multiplied_of_mul (h : (mul u v).result = .ok w) : Multiplied u v w := by
  cases u with
  | scalar s =>
    cases v with
    | scalar t =>
      cases h
      exact .scalars s t
    | matrix b =>
      cases h
      exact .scalarMatrix s b
    | vector y =>
      cases h
      exact .scalarVector s y
  | matrix a =>
    cases v with
    | scalar t =>
      cases h
      exact .matrixScalar a t
    | matrix b =>
      rw [result_mul_matrix_matrix] at h
      obtain ⟨c, hc, rfl⟩ := Traversal.map_eq_ok_iff.1 h
      exact .matrices hc
    | vector y =>
      rw [result_mul_matrix_vector] at h
      obtain ⟨z, hz, rfl⟩ := Traversal.map_eq_ok_iff.1 h
      exact .matrixVector hz
  | vector x =>
    cases v with
    | scalar t =>
      cases h
      exact .vectorScalar x t
    | matrix b => cases h
    | vector y => cases h

lemma mul_of_multiplied (h : Multiplied u v w) : (mul u v).result = .ok w := by
  cases h with
  | matrices hc =>
    rw [result_mul_matrix_matrix, hc]
    rfl
  | matrixVector hy =>
    rw [result_mul_matrix_vector, hy]
    rfl
  | scalars | scalarMatrix | matrixScalar | scalarVector | vectorScalar => rfl

theorem wellFormed_mul (hu : u.WellFormed) (hv : v.WellFormed)
    (h : (mul u v).result = .ok w) : w.WellFormed := by
  cases multiplied_of_mul h with
  | scalarMatrix s b => exact SparseMatrix.wellFormed_mapValues hv
  | matrixScalar a s => exact SparseMatrix.wellFormed_mapValues hu
  | matrices hc => exact SparseMatrix.wellFormed_product hv hc
  | scalars | scalarVector | vectorScalar | matrixVector => trivial

lemma shape_of_mul (h : (mul u v).result = .ok w) :
    Shape.product u.shape? v.shape? = .ok w.shape? := by
  cases multiplied_of_mul h with
  | scalars s t => rfl
  | scalarMatrix s b =>
    rw [shape?_scalar, Shape.product_none_left, shape?_matrix, shape?_matrix,
      SparseMatrix.shape_scale]
  | matrixScalar a s =>
    rw [shape?_scalar, Shape.product_none_right, shape?_matrix, shape?_matrix,
      SparseMatrix.shape_scale]
  | scalarVector s y =>
    rw [shape?_scalar, Shape.product_none_left, shape?_vector, shape?_vector,
      DenseVector.length_scale]
  | vectorScalar x s =>
    rw [shape?_scalar, Shape.product_none_right, shape?_vector, shape?_vector,
      DenseVector.length_scale]
  | matrices hc =>
    obtain ⟨hinner, hshape⟩ := SparseMatrix.shape_of_product hc
    rw [shape?_matrix, shape?_matrix, shape?_matrix, hshape]
    exact if_pos hinner
  | matrixVector hy =>
    obtain ⟨hinner, hlen⟩ := SparseMatrix.shape_of_mulVec hy
    rw [shape?_matrix, shape?_vector, shape?_vector, hlen]
    exact if_pos hinner

variable [Neg α] [BEq α]

/-- Two values and their sum or difference, where one that is zero may leave the other as it is. -/
inductive Summed (op : SumOp) : Value α → Value α → Value α → Prop
  | scalars (s t : α) : Summed op (scalar s) (scalar t) (scalar (s + op.factor * t))
  | matrices {a b c : SparseMatrix α} (h : a.axpy op.factor b = .ok c) :
    Summed op (matrix a) (matrix b) (matrix c)
  | vectors {x y z : DenseVector α} (h : DenseVector.axpy x op.factor y = .ok z) :
    Summed op (vector x) (vector y) (vector z)
  | zeroLeft {s : α} {v w : Value α} {t : Shape} (hs : (s == 0) = true) (hv : v.shape? = some t)
    (h : (addToZero op v).result = .ok w) : Summed op (scalar s) v w
  | zeroRight {u : Value α} {s : α} {t : Shape} (hu : u.shape? = some t) (hs : (s == 0) = true) :
    Summed op u (scalar s) u
  | identityLeft {s : α} {b c : SparseMatrix α} (hs : (s == 0) = false) (hsq : b.nrows = b.ncols)
    (h : (SparseMatrix.scaledIdentity b.nrows s).axpy op.factor b = .ok c) :
    Summed op (scalar s) (matrix b) (matrix c)
  | identityRight {a : SparseMatrix α} {s : α} {c : SparseMatrix α} (hs : (s == 0) = false)
    (hsq : a.nrows = a.ncols)
    (h : a.axpy op.factor (SparseMatrix.scaledIdentity a.nrows s) = .ok c) :
    Summed op (matrix a) (scalar s) (matrix c)

lemma summed_of_scalar_left {op : SumOp} {s : α} {t : Shape} (hv : v.shape? = some t)
    (h : (add op (scalar s) v).result = .ok w) : Summed op (scalar s) v w := by
  rw [add_scalar_left op s hv] at h
  split at h
  · rename_i hs
    exact .zeroLeft hs hv h
  · rename_i hs
    cases v with
    | scalar s' => cases hv
    | matrix b =>
      rw [result_addNonzero_scalar_matrix, Traversal.bind_eq_ok_iff] at h
      obtain ⟨a, ha, h⟩ := h
      obtain ⟨c, hc, rfl⟩ := Traversal.map_eq_ok_iff.1 h
      obtain ⟨hsq, rfl⟩ := promote_eq_ok_iff.1 ha
      exact .identityLeft (eq_false_of_ne_true hs) hsq hc
    | vector y => cases h

lemma summed_of_scalar_right {op : SumOp} {s : α} {t : Shape} (hu : u.shape? = some t)
    (h : (add op u (scalar s)).result = .ok w) : Summed op u (scalar s) w := by
  rw [add_scalar_right op s hu] at h
  split at h
  · rename_i hs
    cases h
    exact .zeroRight hu hs
  · rename_i hs
    cases u with
    | scalar s' => cases hu
    | matrix a =>
      rw [result_addNonzero_matrix_scalar, Traversal.bind_eq_ok_iff] at h
      obtain ⟨b, hb, h⟩ := h
      obtain ⟨c, hc, rfl⟩ := Traversal.map_eq_ok_iff.1 h
      obtain ⟨hsq, rfl⟩ := promote_eq_ok_iff.1 hb
      exact .identityRight (eq_false_of_ne_true hs) hsq hc
    | vector x => cases h

theorem summed_of_add {op : SumOp} (h : (add op u v).result = .ok w) : Summed op u v w := by
  cases u with
  | scalar s =>
    cases v with
    | scalar t =>
      cases h
      exact .scalars s t
    | matrix b => exact summed_of_scalar_left (shape?_matrix b) h
    | vector y => exact summed_of_scalar_left (shape?_vector y) h
  | matrix a =>
    cases v with
    | scalar t => exact summed_of_scalar_right (shape?_matrix a) h
    | matrix b =>
      rw [result_add_matrix] at h
      obtain ⟨c, hc, rfl⟩ := Traversal.map_eq_ok_iff.1 h
      exact .matrices hc
    | vector y => cases h
  | vector x =>
    cases v with
    | scalar t => exact summed_of_scalar_right (shape?_vector x) h
    | matrix b => cases h
    | vector y =>
      rw [result_add_vector] at h
      obtain ⟨z, hz, rfl⟩ := Traversal.map_eq_ok_iff.1 h
      exact .vectors hz

lemma add_of_summed {op : SumOp} (h : Summed op u v w) : (add op u v).result = .ok w := by
  cases h with
  | scalars s t => rfl
  | matrices hc =>
    rw [result_add_matrix, hc]
    rfl
  | vectors hz =>
    rw [result_add_vector, hz]
    rfl
  | zeroLeft hs hv h => rwa [add_scalar_left op _ hv, if_pos hs]
  | zeroRight hu hs =>
    rw [add_scalar_right op _ hu, if_pos hs]
    rfl
  | @identityLeft s b c hs hsq hc =>
    rw [add_scalar_left op s (shape?_matrix b), if_neg (by simp [hs]),
      result_addNonzero_scalar_matrix, promote_of_square hsq]
    change matrix <$> SparseMatrix.axpy _ _ _ = _
    rw [hc]
    rfl
  | @identityRight a s c hs hsq hc =>
    rw [add_scalar_right op s (shape?_matrix a), if_neg (by simp [hs]),
      result_addNonzero_matrix_scalar, promote_of_square hsq]
    change matrix <$> SparseMatrix.axpy _ _ _ = _
    rw [hc]
    rfl

omit [BEq α] in
lemma wellFormed_addToZero {op : SumOp} (hv : v.WellFormed)
    (h : (addToZero op v).result = .ok w) : w.WellFormed := by
  cases op with
  | add =>
    cases h
    exact hv
  | subtract => exact wellFormed_mul (u := scalar (-1)) trivial hv h

theorem wellFormed_add {op : SumOp} (hu : u.WellFormed) (hv : v.WellFormed)
    (h : (add op u v).result = .ok w) : w.WellFormed := by
  cases summed_of_add h with
  | matrices hc => exact SparseMatrix.wellFormed_axpy hu hv hc
  | zeroLeft _ _ hw => exact wellFormed_addToZero hv hw
  | zeroRight => exact hu
  | identityLeft _ _ hc =>
    exact SparseMatrix.wellFormed_axpy (SparseMatrix.wellFormed_scaledIdentity _ _) hv hc
  | identityRight _ _ hc =>
    exact SparseMatrix.wellFormed_axpy hu (SparseMatrix.wellFormed_scaledIdentity _ _) hc
  | scalars | vectors => trivial

omit [BEq α] in
lemma shape_of_addToZero {op : SumOp} (h : (addToZero op v).result = .ok w) :
    w.shape? = v.shape? := by
  obtain ⟨w', hw', hshape⟩ := addToZero_outcome op v
  rw [h] at hw'
  cases hw'
  exact hshape

lemma shape_of_add {op : SumOp} (h : (add op u v).result = .ok w) :
    Shape.sum op.operation u.shape? v.shape? = .ok w.shape? := by
  cases summed_of_add h with
  | scalars s t => rfl
  | matrices hc =>
    obtain ⟨hab, hca⟩ := SparseMatrix.shape_of_axpy hc
    rw [shape?_matrix, shape?_matrix, shape?_matrix, hca, ← hab, Shape.sum_self]
  | vectors hz =>
    rw [shape?_vector, shape?_vector, shape?_vector, DenseVector.length_of_axpy hz,
      ← DenseVector.length_eq_of_axpy hz, Shape.sum_self]
  | zeroLeft _ _ hw => rw [shape?_scalar, Shape.sum_none_left, shape_of_addToZero hw]
  | zeroRight _ _ => rw [shape?_scalar, Shape.sum_none_right]
  | @identityLeft s b c _ hsq hc =>
    rw [shape?_scalar, Shape.sum_none_left, shape?_matrix, shape?_matrix,
      (SparseMatrix.shape_of_axpy hc).2, shape_scaledIdentity_of_square hsq]
  | identityRight _ _ hc =>
    rw [shape?_scalar, Shape.sum_none_right, shape?_matrix, shape?_matrix,
      (SparseMatrix.shape_of_axpy hc).2]

end BlockSparse.Value
