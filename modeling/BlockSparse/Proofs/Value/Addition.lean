import BlockSparse.Proofs.Value.Product

/-! Laws of addition in exact arithmetic, over all the ways in which two values combine. Operands
may be exchanged, a difference is the sum with the negative, and a scalar zero is neutral beside
everything. Where a sum does not exist, the error says the same of its operands in their new
order. -/
namespace BlockSparse
variable {α : Type}

namespace Error

/-- What an error says of two operands, said of them in the other order. -/
def swapOperands : Error → Error
  | incompatibleShapes o s t => incompatibleShapes o t s
  | unsupported (.pair o k l) => unsupported (.pair o l k)
  | e => e

/-- What an error says of two operands, said of them in another operation. -/
def withOperation (o : Operation) : Error → Error
  | incompatibleShapes _ s t => incompatibleShapes o s t
  | unsupported (.pair _ k l) => unsupported (.pair o k l)
  | e => e

lemma swapOperands_swapOperands (e : Error) : e.swapOperands.swapOperands = e := by
  cases e with
  | unsupported cause => cases cause <;> rfl
  | _ => rfl

end Error

variable [CommRing α]

namespace SparseMatrix
variable {a b a' b' : SparseMatrix α}

/-- Two sums of well-formed matrices are the same if they store the same positions and agree in
every value. -/
lemma axpy_congr {t t' : α} (ha : a.WellFormed) (hb : b.WellFormed) (ha' : a'.WellFormed)
    (hb' : b'.WellFormed) (hab : a.shape = b.shape) (hab' : a'.shape = b'.shape)
    (haa' : a.shape = a'.shape) (hpos : a.positions ∪ b.positions = a'.positions ∪ b'.positions)
    (hvalue : ∀ i j, a.value i j + t * b.value i j = a'.value i j + t' * b'.value i j) :
    a.axpy t b = a'.axpy t' b' := by
  obtain ⟨c, hc, hcshape⟩ := axpy_outcome hab t
  obtain ⟨c', hc', hcshape'⟩ := axpy_outcome hab' t'
  rw [hc, hc']
  apply congrArg
  apply ext_value (wellFormed_axpy ha hb hc) (wellFormed_axpy ha' hb' hc')
  · rw [hcshape, haa', hcshape']
  · rw [positions_axpy hc, positions_axpy hc', hpos]
  · intro i _ j _
    rw [value_axpy hc, value_axpy hc', hvalue]

lemma axpy_comm (ha : a.WellFormed) (hb : b.WellFormed) (h : a.shape = b.shape) :
    a.axpy 1 b = b.axpy 1 a := by
  refine axpy_congr ha hb hb ha h h.symm h (Set.union_comm _ _) fun i j => ?_
  ring

lemma axpy_scale_neg_one (ha : a.WellFormed) (hb : b.WellFormed) (h : a.shape = b.shape) :
    a.axpy 1 (b.scale (-1)) = a.axpy (-1) b := by
  have hscale : (b.scale (-1)).shape = b.shape := shape_scale b (-1)
  refine axpy_congr ha (wellFormed_mapValues hb) ha hb (h.trans hscale.symm) h rfl ?_ fun i j => ?_
  · rw [positions_scale]
  · rw [value_scale]
    ring

lemma scale_scaledIdentity (n : Nat) (s t : α) :
    (scaledIdentity n s).scale t = scaledIdentity n (s * t) := by
  simp [scale, mapValues, scaledIdentity]

end SparseMatrix

namespace DenseVector
variable {x y : DenseVector α}

lemma axpy_comm (h : x.length = y.length) : axpy x 1 y = axpy y 1 x := by
  have hentry : (fun q p : α => 1 * q * 1 + 1 * p) = fun q p => 1 * p * 1 + 1 * q := by
    funext q p
    ring
  rw [axpy_of_length_eq h, axpy_of_length_eq h.symm, List.zipWith_comm, hentry]

lemma axpy_scale_neg_one (h : x.length = y.length) : axpy x 1 (scale y (-1)) = axpy x (-1) y := by
  have hentry : (fun p q : α => 1 * (q * -1) * 1 + 1 * p) = fun p q => -1 * q * 1 + 1 * p := by
    funext p q
    ring
  rw [axpy_of_length_eq (h.trans (length_scale y (-1)).symm), axpy_of_length_eq h, scale,
    List.zipWith_map_right, hentry]

end DenseVector

namespace Value
variable [DecidableEq α] {u v w : Value α} {s t : Shape}

section Zero

lemma add_zero_of_shape (op : SumOp) (h : u.shape? = some t) : add op u (scalar 0) = pure u := by
  rw [add_scalar_right op 0 h, if_pos (beq_self_eq_true 0)]

lemma zero_add_of_shape (op : SumOp) (h : v.shape? = some t) :
    add op (scalar 0) v = addToZero op v := by
  rw [add_scalar_left op 0 h, if_pos (beq_self_eq_true 0)]

theorem result_add_zero (op : SumOp) (u : Value α) : (add op u (scalar 0)).result = .ok u := by
  cases u with
  | scalar s => exact congrArg (Except.ok ∘ scalar) (by rw [mul_zero, add_zero])
  | matrix a => exact congrArg Logged.result (add_zero_of_shape op (shape?_matrix a))
  | vector x => exact congrArg Logged.result (add_zero_of_shape op (shape?_vector x))

theorem result_zero_add (v : Value α) : (add .add (scalar 0) v).result = .ok v := by
  cases v with
  | scalar t => exact congrArg (Except.ok ∘ scalar) (by rw [SumOp.factor, one_mul, zero_add])
  | matrix b => exact congrArg Logged.result (zero_add_of_shape .add (shape?_matrix b))
  | vector y => exact congrArg Logged.result (zero_add_of_shape .add (shape?_vector y))

/-- What is subtracted from zero is multiplied by minus one. -/
theorem result_zero_sub (v : Value α) :
    (add .subtract (scalar 0) v).result = (mul (scalar (-1)) v).result := by
  cases v with
  | scalar t => exact congrArg (Except.ok ∘ scalar) (by rw [SumOp.factor, zero_add])
  | matrix b => exact congrArg Logged.result (zero_add_of_shape .subtract (shape?_matrix b))
  | vector y => exact congrArg Logged.result (zero_add_of_shape .subtract (shape?_vector y))

end Zero

/-- The sum of two values, where their shapes are compared first. -/
def checkedAdd (op : SumOp) (u v : Value α) : Except Error (Value α) :=
  Shape.sum op.operation u.shape? v.shape? >>= fun _ => (add op u v).result

section Cases
variable {c : α}

lemma checkedAdd_scalar_left (op : SumOp) (c : α) (v : Value α) :
    checkedAdd op (scalar c) v = (add op (scalar c) v).result := rfl

lemma checkedAdd_scalar_right (op : SumOp) (u : Value α) (c : α) :
    checkedAdd op u (scalar c) = (add op u (scalar c)).result := by
  cases u <;> rfl

lemma checkedAdd_of_shape_ne (op : SumOp) (hu : u.shape? = some s) (hv : v.shape? = some t)
    (h : s ≠ t) : checkedAdd op u v = .error (.incompatibleShapes op.operation s t) := by
  rw [checkedAdd, hu, hv, Shape.sum, if_neg h]
  rfl

lemma checkedAdd_matrices (op : SumOp) {a b : SparseMatrix α} (h : a.shape = b.shape) :
    checkedAdd op (matrix a) (matrix b) = matrix <$> a.axpy op.factor b := by
  rw [checkedAdd, shape?_matrix, shape?_matrix, h, Shape.sum_self, ← result_add_matrix]
  rfl

lemma checkedAdd_vectors (op : SumOp) {x y : DenseVector α} (h : x.length = y.length) :
    checkedAdd op (vector x) (vector y) = vector <$> DenseVector.axpy x op.factor y := by
  rw [checkedAdd, shape?_vector, shape?_vector, h, Shape.sum_self, ← result_add_vector]
  rfl

omit [CommRing α] [DecidableEq α] in
/-- Values of one shape are two matrices or two vectors. -/
lemma cases_of_shape_eq (hu : u.shape? = some s) (hv : v.shape? = some s) :
    (∃ a b, u = matrix a ∧ v = matrix b ∧ a.shape = b.shape) ∨
      ∃ x y, u = vector x ∧ v = vector y ∧ x.length = y.length := by
  have h : u.shape? = v.shape? := hu.trans hv.symm
  cases u with
  | scalar c => cases hu
  | matrix a =>
    cases v with
    | scalar c => cases hv
    | matrix b => exact .inl ⟨a, b, rfl, rfl, Option.some.inj h⟩
    | vector y => cases Option.some.inj h
  | vector x =>
    cases v with
    | scalar c => cases hv
    | matrix b => cases Option.some.inj h
    | vector y => exact .inr ⟨x, y, rfl, rfl, Shape.vector.inj (Option.some.inj h)⟩

/-- A nonzero scalar beside a square matrix is a multiple of the identity. -/
lemma checkedAdd_identity_left (op : SumOp) {b : SparseMatrix α} (hc : c ≠ 0)
    (hsq : b.nrows = b.ncols) : checkedAdd op (scalar c) (matrix b) =
      checkedAdd op (matrix (SparseMatrix.scaledIdentity b.nrows c)) (matrix b) := by
  rw [checkedAdd_scalar_left, add_scalar_left op c (shape?_matrix b), if_neg (by simpa using hc),
    result_addNonzero_scalar_matrix, promote_of_square hsq,
    checkedAdd_matrices op (shape_scaledIdentity_of_square hsq c)]
  rfl

lemma checkedAdd_identity_right (op : SumOp) {a : SparseMatrix α} (hc : c ≠ 0)
    (hsq : a.nrows = a.ncols) : checkedAdd op (matrix a) (scalar c) =
      checkedAdd op (matrix a) (matrix (SparseMatrix.scaledIdentity a.nrows c)) := by
  rw [checkedAdd_scalar_right, add_scalar_right op c (shape?_matrix a), if_neg (by simpa using hc),
    result_addNonzero_matrix_scalar, promote_of_square hsq,
    checkedAdd_matrices op (shape_scaledIdentity_of_square hsq c).symm]
  rfl

/-- What does not stand for a multiple of the identity is a misfit on either side. -/
lemma checkedAdd_misfit_left (op : SumOp) (hc : c ≠ 0) {e : Error} (hv : v.shape? = some t)
    (h : Misfit (.pair op.operation .scalar .vector) t e) :
    checkedAdd op (scalar c) v = .error e := by
  rw [checkedAdd_scalar_left, add_scalar_left op c hv, if_neg (by simpa using hc)]
  obtain ⟨_, _, _, hfit⟩ | ⟨d, hd, hmisfit⟩ := addNonzero_left_outcome op c hv
  · exact absurd h (hfit e)
  · rw [hd, hmisfit.unique h]

lemma checkedAdd_misfit_right (op : SumOp) (hc : c ≠ 0) {e : Error} (hu : u.shape? = some t)
    (h : Misfit (.pair op.operation .vector .scalar) t e) :
    checkedAdd op u (scalar c) = .error e := by
  rw [checkedAdd_scalar_right, add_scalar_right op c hu, if_neg (by simpa using hc)]
  obtain ⟨_, _, _, hfit⟩ | ⟨d, hd, hmisfit⟩ := addNonzero_right_outcome op c hu
  · exact absurd h (hfit e)
  · rw [hd, hmisfit.unique h]

end Cases

section Commutative

lemma exists_checkedAdd (op : SumOp) (hu : u.shape? = some s) (hv : v.shape? = some s) :
    ∃ w, checkedAdd op u v = .ok w := by
  obtain ⟨w, hw, _⟩ := add_shaped_outcome op hu hv
  refine ⟨w, ?_⟩
  rw [checkedAdd, hu, hv, Shape.sum_self]
  exact hw

lemma checkedAdd_comm_of_shape_eq (hu : u.WellFormed) (hv : v.WellFormed) (hus : u.shape? = some s)
    (hvs : v.shape? = some s) : checkedAdd .add v u = checkedAdd .add u v := by
  obtain ⟨a, b, rfl, rfl, h⟩ | ⟨x, y, rfl, rfl, h⟩ := cases_of_shape_eq hus hvs
  · rw [checkedAdd_matrices .add h, checkedAdd_matrices .add h.symm, SumOp.factor,
      SparseMatrix.axpy_comm hu hv h]
  · rw [checkedAdd_vectors .add h, checkedAdd_vectors .add h.symm, SumOp.factor,
      DenseVector.axpy_comm h]

lemma checkedAdd_comm_of_shapes (hu : u.WellFormed) (hv : v.WellFormed) (hus : u.shape? = some s)
    (hvs : v.shape? = some t) :
    checkedAdd .add v u = (checkedAdd .add u v).mapError Error.swapOperands := by
  by_cases h : s = t
  · subst h
    obtain ⟨w, hw⟩ := exists_checkedAdd .add hus hvs
    rw [checkedAdd_comm_of_shape_eq hu hv hus hvs, hw]
    rfl
  · rw [checkedAdd_of_shape_ne .add hus hvs h, checkedAdd_of_shape_ne .add hvs hus (Ne.symm h)]
    rfl

lemma checkedAdd_comm_scalar (c : α) (hv : v.WellFormed) :
    checkedAdd .add v (scalar c) = (checkedAdd .add (scalar c) v).mapError Error.swapOperands := by
  by_cases hc : c = 0
  · subst hc
    rw [checkedAdd_scalar_left, checkedAdd_scalar_right, result_add_zero, result_zero_add]
    rfl
  · cases v with
    | scalar d =>
      refine congrArg (Except.ok ∘ scalar) ?_
      rw [SumOp.factor, one_mul, one_mul, add_comm]
    | matrix b =>
      by_cases hsq : b.nrows = b.ncols
      · rw [checkedAdd_identity_left .add hc hsq, checkedAdd_identity_right .add hc hsq]
        exact checkedAdd_comm_of_shapes (SparseMatrix.wellFormed_scaledIdentity b.nrows c) hv
          (shape?_matrix _) (shape?_matrix b)
      · rw [checkedAdd_misfit_left .add hc (shape?_matrix b) (.matrix hsq),
          checkedAdd_misfit_right .add hc (shape?_matrix b) (.matrix hsq)]
        rfl
    | vector y =>
      rw [checkedAdd_misfit_left .add hc (shape?_vector y) (.vector y.length),
        checkedAdd_misfit_right .add hc (shape?_vector y) (.vector y.length)]
      rfl

/-- Operands may be exchanged, and an error then names them in the other order. -/
theorem checkedAdd_comm (hu : u.WellFormed) (hv : v.WellFormed) :
    checkedAdd .add v u = (checkedAdd .add u v).mapError Error.swapOperands := by
  cases hus : u.shape? with
  | none =>
    obtain ⟨c, rfl⟩ := shape?_eq_none_iff.1 hus
    exact checkedAdd_comm_scalar c hv
  | some s =>
    cases hvs : v.shape? with
    | none =>
      obtain ⟨c, rfl⟩ := shape?_eq_none_iff.1 hvs
      rw [checkedAdd_comm_scalar c hu]
      cases checkedAdd .add (scalar c) u with
      | error e => exact congrArg Except.error e.swapOperands_swapOperands.symm
      | ok w => rfl
    | some t => exact checkedAdd_comm_of_shapes hu hv hus hvs

end Commutative

section Negative

lemma checkedAdd_neg_of_shape_eq (hu : u.WellFormed) (hv : v.WellFormed) (hus : u.shape? = some s)
    (hvs : v.shape? = some s) (hw : (mul (scalar (-1)) v).result = .ok w) :
    checkedAdd .add u w = checkedAdd .subtract u v := by
  obtain ⟨a, b, rfl, rfl, h⟩ | ⟨x, y, rfl, rfl, h⟩ := cases_of_shape_eq hus hvs
  · cases hw
    rw [checkedAdd_matrices .add (h.trans (SparseMatrix.shape_scale b (-1)).symm),
      checkedAdd_matrices .subtract h, SumOp.factor, SumOp.factor,
      SparseMatrix.axpy_scale_neg_one hu hv h]
  · cases hw
    rw [checkedAdd_vectors .add (h.trans (DenseVector.length_scale y (-1)).symm),
      checkedAdd_vectors .subtract h, SumOp.factor, SumOp.factor, DenseVector.axpy_scale_neg_one h]

omit [DecidableEq α] in
lemma shape?_neg (hw : (mul (scalar (-1)) v).result = .ok w) : w.shape? = v.shape? :=
  (Except.ok.inj (shape_of_mul hw)).symm

lemma checkedAdd_neg_of_shapes (hu : u.WellFormed) (hv : v.WellFormed) (hus : u.shape? = some s)
    (hvs : v.shape? = some t) (hw : (mul (scalar (-1)) v).result = .ok w) :
    checkedAdd .add u w = (checkedAdd .subtract u v).mapError (Error.withOperation .add) := by
  by_cases h : s = t
  · subst h
    obtain ⟨x, hx⟩ := exists_checkedAdd .subtract hus hvs
    rw [checkedAdd_neg_of_shape_eq hu hv hus hvs hw, hx]
    rfl
  · rw [checkedAdd_of_shape_ne .add hus ((shape?_neg hw).trans hvs) h,
      checkedAdd_of_shape_ne .subtract hus hvs h]
    rfl

lemma checkedAdd_neg_scalar_left (c : α) (hv : v.WellFormed)
    (hw : (mul (scalar (-1)) v).result = .ok w) : checkedAdd .add (scalar c) w =
      (checkedAdd .subtract (scalar c) v).mapError (Error.withOperation .add) := by
  by_cases hc : c = 0
  · subst hc
    rw [checkedAdd_scalar_left, checkedAdd_scalar_left, result_zero_add, result_zero_sub, hw]
    rfl
  · cases v with
    | scalar d =>
      cases hw
      refine congrArg (Except.ok ∘ scalar) ?_
      rw [SumOp.factor, SumOp.factor, one_mul]
    | matrix b =>
      have hws := (shape?_neg hw).trans (shape?_matrix b)
      by_cases hsq : b.nrows = b.ncols
      · have hidentity := checkedAdd_neg_of_shapes
          (u := matrix (SparseMatrix.scaledIdentity b.nrows c))
          (SparseMatrix.wellFormed_scaledIdentity b.nrows c) hv (shape?_matrix _)
          (shape?_matrix b) hw
        cases hw
        have hrows : (b.scale (-1)).nrows = b.nrows := SparseMatrix.nrows_mapValues _ b
        rw [checkedAdd_identity_left .add hc (hrows.trans hsq), hrows, hidentity,
          checkedAdd_identity_left .subtract hc hsq]
      · rw [checkedAdd_misfit_left .subtract hc (shape?_matrix b) (.matrix hsq),
          checkedAdd_misfit_left .add hc hws (.matrix hsq)]
        rfl
    | vector y =>
      rw [checkedAdd_misfit_left .subtract hc (shape?_vector y) (.vector y.length),
        checkedAdd_misfit_left .add hc ((shape?_neg hw).trans (shape?_vector y))
          (.vector y.length)]
      rfl

lemma checkedAdd_neg_scalar_right (hu : u.WellFormed) (hus : u.shape? = some s) (d : α) :
    checkedAdd .add u (scalar (-1 * d)) =
      (checkedAdd .subtract u (scalar d)).mapError (Error.withOperation .add) := by
  by_cases hd : d = 0
  · subst hd
    rw [mul_zero, checkedAdd_scalar_right, checkedAdd_scalar_right, result_add_zero,
      result_add_zero]
    rfl
  · have hneg : -1 * d ≠ 0 := by simpa using hd
    cases u with
    | scalar c => cases hus
    | matrix a =>
      by_cases hsq : a.nrows = a.ncols
      · have hscale : (mul (scalar (-1)) (matrix (SparseMatrix.scaledIdentity a.nrows d))).result =
            .ok (matrix (SparseMatrix.scaledIdentity a.nrows (-1 * d))) := by
          rw [mul_comm, ← SparseMatrix.scale_scaledIdentity]
          rfl
        rw [checkedAdd_identity_right .add hneg hsq, checkedAdd_identity_right .subtract hd hsq]
        exact checkedAdd_neg_of_shapes hu (SparseMatrix.wellFormed_scaledIdentity a.nrows d)
          (shape?_matrix a) (shape?_matrix _) hscale
      · rw [checkedAdd_misfit_right .subtract hd (shape?_matrix a) (.matrix hsq),
          checkedAdd_misfit_right .add hneg (shape?_matrix a) (.matrix hsq)]
        rfl
    | vector x =>
      rw [checkedAdd_misfit_right .subtract hd (shape?_vector x) (.vector x.length),
        checkedAdd_misfit_right .add hneg (shape?_vector x) (.vector x.length)]
      rfl

/-- A difference is the sum with the negative, and an error names the one operation or the other. -/
theorem checkedAdd_neg (hu : u.WellFormed) (hv : v.WellFormed)
    (hw : (mul (scalar (-1)) v).result = .ok w) :
    checkedAdd .add u w = (checkedAdd .subtract u v).mapError (Error.withOperation .add) := by
  cases hus : u.shape? with
  | none =>
    obtain ⟨c, rfl⟩ := shape?_eq_none_iff.1 hus
    exact checkedAdd_neg_scalar_left c hv hw
  | some s =>
    cases hvs : v.shape? with
    | none =>
      obtain ⟨d, rfl⟩ := shape?_eq_none_iff.1 hvs
      cases hw
      exact checkedAdd_neg_scalar_right hu hus d
    | some t => exact checkedAdd_neg_of_shapes hu hv hus hvs hw

end Negative

end Value
end BlockSparse
