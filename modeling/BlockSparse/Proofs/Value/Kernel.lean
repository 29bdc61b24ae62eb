import BlockSparse.Proofs.Value.Outcome

/-! The kernels beneath the arithmetic of values. An operation calls at most one of them, gives what
it gives, and notes it in the log; only kernels on vectors and sums with a promoted scalar go
unnoted. Where the shapes of two values combine, the kernel for them gets operands that fit. -/
namespace BlockSparse
variable {α : Type}

/-- A kernel with the operands on which it is called. -/
inductive Kernel (α : Type) where
  | transpose (a : SparseMatrix α)
  | product (a b : SparseMatrix α)
  | scale (a : SparseMatrix α) (s : α)
  | mulVec (a : SparseMatrix α) (x : DenseVector α)
  | axpy (a : SparseMatrix α) (factor : α) (b : SparseMatrix α)
  /-- A sum in which one of the matrices is a promoted scalar. -/
  | shift (a : SparseMatrix α) (factor : α) (b : SparseMatrix α)
  | scaleVector (x : DenseVector α) (s : α)
  | axpyVector (x : DenseVector α) (factor : α) (y : DenseVector α)

namespace Kernel

/-- The operands have shapes for which the kernel is made. -/
def Fits : Kernel α → Prop
  | product a b => a.ncols = b.nrows
  | mulVec a x => a.ncols = x.length
  | axpy a _ b => a.shape = b.shape
  | shift a _ b => a.shape = b.shape
  | axpyVector x _ y => x.length = y.length
  | transpose _ | scale _ _ | scaleVector _ _ => True

/-- What is noted before the kernel runs. -/
def event? : Kernel α → Option (Event α)
  | transpose a => some (.transpose a.nrows a.ncols)
  | product a b => some (.product a.nrows a.ncols b.nrows b.ncols)
  | scale a s => some (.scale a.nrows a.ncols s)
  | mulVec a x => some (.mulVec a.nrows a.ncols x.length)
  | axpy a factor _ => some (.axpy a.nrows a.ncols factor)
  | shift _ _ _ | scaleVector _ _ | axpyVector _ _ _ => none

end Kernel

namespace Shape
variable {m n k k' : Nat} {t : Option Shape}

lemma eq_of_product_matrix (h : product (some (matrix m k)) (some (matrix k' n)) = .ok t) :
    k = k' := by
  rw [product] at h
  split at h
  · assumption
  · cases h

lemma eq_of_product_vector (h : product (some (matrix m k)) (some (vector n)) = .ok t) :
    k = n := by
  rw [product] at h
  split at h
  · assumption
  · cases h

lemma eq_of_sum {o : Operation} {s s' : Shape} (h : sum o (some s) (some s') = .ok t) :
    s = s' := by
  rw [sum] at h
  split at h
  · assumption
  · cases h

end Shape

namespace Value
variable {u v : Value α} {k : Kernel α} {op : SumOp} {s : α} {t : Option Shape}

/-- The kernel for a transpose. -/
def transposeKernel? : Value α → Option (Kernel α)
  | matrix a => some (.transpose a)
  | _ => none

lemma fits_of_transposeKernel (h : u.transposeKernel? = some k) : k.Fits := by
  cases u <;> cases h
  trivial

/-- The kernel for a product; two scalars need none, and a vector is only multiplied by scalars. -/
def mulKernel? : Value α → Value α → Option (Kernel α)
  | matrix a, matrix b => some (.product a b)
  | matrix a, scalar s => some (.scale a s)
  | scalar s, matrix a => some (.scale a s)
  | vector x, scalar s => some (.scaleVector x s)
  | scalar s, vector x => some (.scaleVector x s)
  | matrix a, vector x => some (.mulVec a x)
  | scalar _, scalar _ => none
  | vector _, matrix _ => none
  | vector _, vector _ => none

lemma fits_of_mulKernel (h : mulKernel? u v = some k)
    (hs : Shape.product u.shape? v.shape? = .ok t) : k.Fits := by
  cases u with
  | scalar s =>
    cases v <;> cases h
    · trivial
    · trivial
  | matrix a =>
    cases v <;> cases h
    · trivial
    · exact Shape.eq_of_product_matrix hs
    · exact Shape.eq_of_product_vector hs
  | vector x =>
    cases v <;> cases h
    trivial

variable [One α] [Neg α]

/-- The kernel for a sum whose left operand stands for nothing: only a difference needs one. -/
def addToZeroKernel? (op : SumOp) (v : Value α) : Option (Kernel α) :=
  match op with
  | .add => none
  | .subtract => mulKernel? (scalar (-1)) v

lemma fits_of_addToZeroKernel (h : addToZeroKernel? op v = some k) : k.Fits := by
  cases op with
  | add => cases h
  | subtract => exact fits_of_mulKernel h (Shape.product_none_left v.shape?)

/-- The kernel for a sum of a square matrix and a scalar. -/
def addNonzeroKernel? (op : SumOp) : Value α → Value α → Option (Kernel α)
  | matrix a, scalar s =>
    if a.nrows = a.ncols then some (.shift a op.factor (SparseMatrix.scaledIdentity a.nrows s))
    else none
  | scalar s, matrix b =>
    if b.nrows = b.ncols then some (.shift (SparseMatrix.scaledIdentity b.nrows s) op.factor b)
    else none
  | _, _ => none

/-- A promoted scalar has the shape of the matrix beside it. -/
lemma fits_of_addNonzeroKernel (h : addNonzeroKernel? op u v = some k) : k.Fits := by
  unfold addNonzeroKernel? at h
  split at h
  · rename_i a s
    split at h
    · rename_i hsq
      cases h
      exact (shape_scaledIdentity_of_square hsq s).symm
    · cases h
  · rename_i s b
    split at h
    · rename_i hsq
      cases h
      exact shape_scaledIdentity_of_square hsq s
    · cases h
  · cases h

variable [Zero α] [BEq α]

/-- The kernel for a sum or difference. -/
def addKernel? (op : SumOp) : Value α → Value α → Option (Kernel α)
  | scalar _, scalar _ => none
  | matrix a, matrix b => some (.axpy a op.factor b)
  | vector x, vector y => some (.axpyVector x op.factor y)
  | u, scalar s => if s == 0 then none else addNonzeroKernel? op u (scalar s)
  | scalar s, v => if s == 0 then addToZeroKernel? op v else addNonzeroKernel? op (scalar s) v
  | matrix _, vector _ => none
  | vector _, matrix _ => none

lemma addKernel?_scalar_left (op : SumOp) (s : α) {t : Shape} (h : v.shape? = some t) :
    addKernel? op (scalar s) v =
      if s == 0 then addToZeroKernel? op v else addNonzeroKernel? op (scalar s) v := by
  cases v with
  | scalar s' => cases h
  | matrix b => rfl
  | vector y => rfl

lemma addKernel?_scalar_right (op : SumOp) (s : α) {t : Shape} (h : u.shape? = some t) :
    addKernel? op u (scalar s) =
      if s == 0 then none else addNonzeroKernel? op u (scalar s) := by
  cases u with
  | scalar s' => cases h
  | matrix a => rfl
  | vector x => rfl

lemma fits_of_addKernel_scalar_left {t : Shape} (hv : v.shape? = some t)
    (h : addKernel? op (scalar s) v = some k) : k.Fits := by
  rw [addKernel?_scalar_left op s hv] at h
  split at h
  · exact fits_of_addToZeroKernel h
  · exact fits_of_addNonzeroKernel h

lemma fits_of_addKernel_scalar_right {t : Shape} (hu : u.shape? = some t)
    (h : addKernel? op u (scalar s) = some k) : k.Fits := by
  rw [addKernel?_scalar_right op s hu] at h
  split at h
  · cases h
  · exact fits_of_addNonzeroKernel h

lemma fits_of_addKernel (h : addKernel? op u v = some k)
    (hs : Shape.sum op.operation u.shape? v.shape? = .ok t) : k.Fits := by
  cases u with
  | scalar s =>
    cases v with
    | scalar s' => cases h
    | matrix b => exact fits_of_addKernel_scalar_left (shape?_matrix b) h
    | vector y => exact fits_of_addKernel_scalar_left (shape?_vector y) h
  | matrix a =>
    cases v with
    | scalar s => exact fits_of_addKernel_scalar_right (shape?_matrix a) h
    | matrix b =>
      cases h
      exact Shape.eq_of_sum hs
    | vector y => cases h
  | vector x =>
    cases v with
    | scalar s => exact fits_of_addKernel_scalar_right (shape?_vector x) h
    | matrix b => cases h
    | vector y =>
      cases h
      exact Shape.vector.inj (Shape.eq_of_sum hs)

end Value

variable [Zero α] [One α] [Add α] [Mul α]

namespace Kernel

/-- What the kernel gives; some kernels test their operands themselves. -/
def run : Kernel α → Except Error (Value α)
  | transpose a => .ok (.matrix a.transpose)
  | product a b => Value.matrix <$> a.product b
  | scale a s => .ok (.matrix (a.scale s))
  | mulVec a x => Value.vector <$> a.mulVec x
  | axpy a factor b => Value.matrix <$> a.axpy factor b
  | shift a factor b => Value.matrix <$> a.axpy factor b
  | scaleVector x s => .ok (.vector (DenseVector.scale x s))
  | axpyVector x factor y => Value.vector <$> DenseVector.axpy x factor y

/-- A kernel succeeds on operands that fit. -/
lemma run_of_fits {k : Kernel α} (h : k.Fits) : ∃ v, k.run = .ok v := by
  cases k with
  | transpose a => exact ⟨_, rfl⟩
  | scale a s => exact ⟨_, rfl⟩
  | scaleVector x s => exact ⟨_, rfl⟩
  | product a b => exact ⟨_, by rw [run, SparseMatrix.product_of_ncols_eq h]; rfl⟩
  | mulVec a x => exact ⟨_, by rw [run, SparseMatrix.mulVec_of_ncols_eq h]; rfl⟩
  | axpy a factor b => exact ⟨_, by rw [run, SparseMatrix.axpy_of_shape_eq h factor]; rfl⟩
  | shift a factor b => exact ⟨_, by rw [run, SparseMatrix.axpy_of_shape_eq h factor]; rfl⟩
  | axpyVector x factor y => exact ⟨_, by rw [run, DenseVector.axpy_of_length_eq h factor]; rfl⟩

/-- A computation that calls the given kernel, if there is one, and no other. -/
structure Behind (k? : Option (Kernel α)) (x : Logged α (Value α)) : Prop where
  log : x.log = (k?.bind event?).toList
  result : ∀ k, k? = some k → x.result = k.run

lemma behind_none {x : Logged α (Value α)} (h : x.log = []) : Behind none x where
  log := h
  result _ hk := by cases hk

lemma behind_some {k : Kernel α} {x : Logged α (Value α)} (hlog : x.log = k.event?.toList)
    (h : x.result = k.run) : Behind (some k) x where
  log := hlog
  result _ hk := by
    cases hk
    exact h

lemma behind_note {β : Type} {k : Kernel α} {ev : Event α} (hev : k.event? = some ev)
    {r : Except Error β} {f : β → Value α} (h : f <$> r = k.run) :
    Behind (some k) (do
      Logged.note ev
      let b ← Logged.lift r
      pure (f b)) := by
  refine behind_some ?_ ?_
  · rw [hev]
    cases r <;> rfl
  · rw [← h]
    cases r <;> rfl

lemma behind_lift {β : Type} {k : Kernel α} (hev : k.event? = none)
    {r : Except Error β} {f : β → Value α} (h : f <$> r = k.run) :
    Behind (some k) (do
      let b ← Logged.lift r
      pure (f b)) := by
  refine behind_some ?_ ?_
  · rw [hev]
    cases r <;> rfl
  · rw [← h]
    cases r <;> rfl

end Kernel

namespace Value
open Kernel

lemma behind_transpose (u : Value α) : Behind u.transposeKernel? u.transpose := by
  cases u with
  | scalar s => exact behind_none rfl
  | matrix a => exact behind_some rfl rfl
  | vector x => exact behind_none rfl

lemma behind_mul (u v : Value α) : Behind (mulKernel? u v) (mul u v) := by
  cases u with
  | scalar s =>
    cases v with
    | scalar t => exact behind_none rfl
    | matrix b => exact behind_some rfl rfl
    | vector y => exact behind_some rfl rfl
  | matrix a =>
    cases v with
    | scalar t => exact behind_some rfl rfl
    | matrix b => exact behind_note rfl rfl
    | vector y => exact behind_note rfl rfl
  | vector x =>
    cases v with
    | scalar t => exact behind_some rfl rfl
    | matrix b => exact behind_none rfl
    | vector y => exact behind_none rfl

variable [Neg α]

lemma behind_addToZero (op : SumOp) (v : Value α) :
    Behind (addToZeroKernel? op v) (addToZero op v) := by
  cases op with
  | add => exact behind_none rfl
  | subtract => exact behind_mul (scalar (-1)) v

lemma behind_addNonzero (op : SumOp) (u v : Value α) :
    Behind (addNonzeroKernel? op u v) (addNonzero op u v) := by
  cases u with
  | scalar s =>
    cases v with
    | scalar t => exact behind_none rfl
    | vector y => exact behind_none rfl
    | matrix b =>
      by_cases hsq : b.nrows = b.ncols
      · rw [addNonzeroKernel?, if_pos hsq]
        refine behind_some rfl ?_
        rw [result_addNonzero_scalar_matrix, promote_of_square hsq]
        rfl
      · rw [addNonzeroKernel?, if_neg hsq]
        exact behind_none rfl
  | matrix a =>
    cases v with
    | scalar s =>
      by_cases hsq : a.nrows = a.ncols
      · rw [addNonzeroKernel?, if_pos hsq]
        refine behind_some rfl ?_
        rw [result_addNonzero_matrix_scalar, promote_of_square hsq]
        rfl
      · rw [addNonzeroKernel?, if_neg hsq]
        exact behind_none rfl
    | matrix b => exact behind_none rfl
    | vector y => exact behind_none rfl
  | vector x =>
    cases v with
    | scalar t => exact behind_none rfl
    | matrix b => exact behind_none rfl
    | vector y => exact behind_none rfl

variable [BEq α]

lemma behind_add_scalar_left {v : Value α} (op : SumOp) (s : α) {t : Shape}
    (h : v.shape? = some t) : Behind (addKernel? op (scalar s) v) (add op (scalar s) v) := by
  rw [addKernel?_scalar_left op s h, add_scalar_left op s h]
  split
  · exact behind_addToZero op v
  · exact behind_addNonzero op (scalar s) v

lemma behind_add_scalar_right {u : Value α} (op : SumOp) (s : α) {t : Shape}
    (h : u.shape? = some t) : Behind (addKernel? op u (scalar s)) (add op u (scalar s)) := by
  rw [addKernel?_scalar_right op s h, add_scalar_right op s h]
  split
  · exact behind_none rfl
  · exact behind_addNonzero op u (scalar s)

lemma behind_add (op : SumOp) (u v : Value α) : Behind (addKernel? op u v) (add op u v) := by
  cases u with
  | scalar s =>
    cases v with
    | scalar t => exact behind_none rfl
    | matrix b => exact behind_add_scalar_left op s (shape?_matrix b)
    | vector y => exact behind_add_scalar_left op s (shape?_vector y)
  | matrix a =>
    cases v with
    | scalar t => exact behind_add_scalar_right op t (shape?_matrix a)
    | matrix b => exact behind_note rfl rfl
    | vector y => exact behind_none rfl
  | vector x =>
    cases v with
    | scalar t => exact behind_add_scalar_right op t (shape?_vector x)
    | matrix b => exact behind_none rfl
    | vector y => exact behind_lift rfl rfl

end Value
end BlockSparse
