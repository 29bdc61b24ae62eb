import BlockSparse.Proofs.Sparse.Pattern
import BlockSparse.Proofs.Value.Cases

/-! The stored positions of values. Those of a product or a sum follow from the stored positions of
the operands and from the operands that are scalars. Operands that differ in nothing but the numbers
of their matrices and vectors therefore combine alike, and fail alike. -/
namespace BlockSparse.Value
open SparseMatrix
open scoped SetRel

section Positions
variable {α : Type} {u v w : Value α}

/-- The stored positions of a value; only a matrix has any. -/
def positions : Value α → SetRel Nat Nat
  | matrix a => a.positions
  | _ => ∅

/-- Composes relations in their order. -/
def compose : List (SetRel Nat Nat) → SetRel Nat Nat
  | [] => ∅
  | [r] => r
  | r :: t :: rs => r ○ compose (t :: rs)

lemma compose_cons {rs : List (SetRel Nat Nat)} (h : rs ≠ []) (r : SetRel Nat Nat) :
    compose (r :: rs) = r ○ compose rs := by
  cases rs with
  | nil => exact absurd rfl h
  | cons t rs => rfl

lemma positions_of_transpose (hu : u.WellFormed) (h : u.transpose.result = .ok w) :
    w.positions = u.positions.inv := by
  cases transposed_of_transpose h with
  | scalar s => rfl
  | matrix a => exact positions_transpose hu

/-- A value that comes from factors of which these are the patterns, scalars left out. -/
structure ProductOf (v : Value α) (rs : List (SetRel Nat Nat)) : Prop where
  positions : v.positions = compose rs
  nil_iff : rs = [] ↔ v.scalar?.isSome

/-- The patterns of a product with one more factor. -/
def withFactor (u : Value α) (rs : List (SetRel Nat Nat)) : List (SetRel Nat Nat) :=
  if u.scalar?.isSome then rs else u.positions :: rs

lemma productOf_cons {r : SetRel Nat Nat} {rs : List (SetRel Nat Nat)} (hw : w.scalar? = none)
    (h : w.positions = compose (r :: rs)) : w.ProductOf (r :: rs) := ⟨h, by simp [hw]⟩

lemma productOf_withFactor_nil (u : Value α) : u.ProductOf (u.withFactor []) := by
  cases u with
  | scalar s => exact ⟨rfl, by simp [withFactor, scalar?]⟩
  | matrix a => exact productOf_cons rfl rfl
  | vector x => exact productOf_cons rfl rfl

/-- Beside a value that is no scalar, one more factor is composed. -/
lemma ProductOf.compose_cons {rs : List (SetRel Nat Nat)} (h : v.ProductOf rs)
    (hv : v.scalar? = none) (r : SetRel Nat Nat) : compose (r :: rs) = r ○ v.positions := by
  have hne : rs ≠ [] := by
    intro hnil
    have hscalar := h.nil_iff.1 hnil
    rw [hv] at hscalar
    cases hscalar
  rw [Value.compose_cons hne, h.positions]

section Sum
variable [Zero α] [BEq α] {s : α} {t : Shape}

/-- The stored positions of the sum of a matrix with `n` rows and a scalar. -/
def shifted (s : α) (n : Nat) (r : SetRel Nat Nat) : SetRel Nat Nat :=
  if s == 0 then r else r ∪ diagonal n

/-- The number of rows of a value; a scalar has none. -/
def rows (v : Value α) : Nat := v.shape?.elim 0 Shape.rows

/-- The stored positions of a sum. -/
def sumPositions (u v : Value α) : SetRel Nat Nat :=
  match u.scalar?, v.scalar? with
  | some s, none => shifted s v.rows v.positions
  | none, some s => shifted s u.rows u.positions
  | _, _ => u.positions ∪ v.positions

lemma sumPositions_scalar_left (hv : v.shape? = some t) :
    (scalar s).sumPositions v = shifted s v.rows v.positions := by
  cases v with
  | scalar s' => cases hv
  | matrix b => rfl
  | vector y => rfl

lemma sumPositions_scalar_right (hu : u.shape? = some t) :
    u.sumPositions (scalar s) = shifted s u.rows u.positions := by
  cases u with
  | scalar s' => cases hu
  | matrix a => rfl
  | vector x => rfl

end Sum

variable [Zero α] [One α] [Add α] [Mul α]

/-- Scalar factors leave the stored positions as they are, and other factors compose them. -/
lemma ProductOf.mul {rs : List (SetRel Nat Nat)} (h : (mul u v).result = .ok w)
    (hv : v.ProductOf rs) : w.ProductOf (u.withFactor rs) := by
  cases multiplied_of_mul h with
  | scalars s t => exact ⟨hv.positions, hv.nil_iff⟩
  | scalarMatrix s b => exact ⟨(positions_scale b s).trans hv.positions, hv.nil_iff⟩
  | scalarVector s y => exact ⟨hv.positions, hv.nil_iff⟩
  | matrixScalar a s =>
    -- the other factors were scalars, so none of them left a pattern
    rw [hv.nil_iff.2 rfl]
    exact productOf_cons rfl (positions_scale a s)
  | vectorScalar x s =>
    rw [hv.nil_iff.2 rfl]
    exact productOf_cons rfl rfl
  | @matrices a b c hc =>
    have hcomp : c.positions = a.positions ○ b.positions := positions_product hc
    exact productOf_cons rfl (hcomp.trans (hv.compose_cons rfl a.positions).symm)
  | @matrixVector a x y hy =>
    have hcomp : a.positions ○ (∅ : SetRel Nat Nat) = ∅ := SetRel.comp_empty a.positions
    exact productOf_cons rfl ((hv.compose_cons rfl a.positions).trans hcomp).symm

variable [Neg α] {op : SumOp}

lemma positions_addToZero (h : (addToZero op v).result = .ok w) : w.positions = v.positions := by
  cases op with
  | add =>
    cases h
    rfl
  | subtract =>
    cases multiplied_of_mul h with
    | scalars | scalarVector => rfl
    | scalarMatrix => exact positions_scale _ _

theorem positions_of_add [BEq α] (h : (add op u v).result = .ok w) :
    w.positions = u.sumPositions v := by
  cases summed_of_add h with
  | scalars s t => exact (Set.union_self _).symm
  | vectors hz => exact (Set.union_self _).symm
  | matrices hc => exact positions_axpy hc
  | zeroLeft hs hv hw =>
    rw [sumPositions_scalar_left hv, shifted, if_pos hs, positions_addToZero hw]
  | zeroRight hu hs => rw [sumPositions_scalar_right hu, shifted, if_pos hs]
  | @identityLeft s b c hs hsq hc =>
    rw [sumPositions_scalar_left (shape?_matrix b), shifted, if_neg (by simp [hs])]
    change c.positions = b.positions ∪ diagonal b.nrows
    rw [positions_axpy hc, positions_scaledIdentity, Set.union_comm]
  | @identityRight a s c hs hsq hc =>
    rw [sumPositions_scalar_right (shape?_matrix a), shifted, if_neg (by simp [hs])]
    change c.positions = a.positions ∪ diagonal a.nrows
    rw [positions_axpy hc, positions_scaledIdentity]

end Positions

/-- Values that differ in nothing but the numbers of their matrices and vectors. -/
inductive Alike {α : Type} : Value α → Value α → Prop
  | scalar (s : α) : Alike (.scalar s) (.scalar s)
  | matrix {a b : SparseMatrix α} (h : a.SamePattern b) : Alike (.matrix a) (.matrix b)
  | vector {x y : DenseVector α} (h : x.length = y.length) : Alike (.vector x) (.vector y)

section Alike
variable {α : Type} {u v u' v' : Value α}

namespace Alike

lemma shape? (h : u.Alike v) : u.shape? = v.shape? := by
  cases h with
  | scalar s => rfl
  | matrix h => exact congrArg some h.shape
  | vector h => exact congrArg (some ∘ Shape.vector) h

lemma kind (h : u.Alike v) : u.kind = v.kind := by
  cases h <;> rfl

/-- Values that do not combine are alike in the error that says so. -/
lemma incompatible (hu : u.Alike u') (hv : v.Alike v') (operation : Operation) :
    Agree (β := Value α) Alike (.error (incompatible operation u v))
      (.error (incompatible operation u' v')) := by
  rw [Value.incompatible, Value.incompatible, hu.shape?, hv.shape?, hu.kind, hv.kind]
  exact .error _

theorem transpose (h : u.Alike u') : Agree Alike u.transpose.result u'.transpose.result := by
  cases h with
  | scalar s => exact .ok (.scalar s)
  | matrix h => exact .ok (.matrix h.transpose)
  | vector h => exact .error _

lemma scale [Mul α] {x y : DenseVector α} (h : x.length = y.length) (s : α) :
    Alike (.vector (DenseVector.scale x s)) (.vector (DenseVector.scale y s)) :=
  .vector (by rw [DenseVector.length_scale, DenseVector.length_scale, h])

lemma promote {a b : SparseMatrix α} (h : a.SamePattern b) (s : α) :
    Agree SamePattern (promote s a) (promote s b) := by
  rw [Value.promote, Value.promote, h.nrows, h.ncols]
  split
  · exact .ok (.refl _)
  · exact .error _

lemma vectorSum [One α] [Add α] [Mul α] {x x' y y' : DenseVector α} (hx : x.length = x'.length)
    (hy : y.length = y'.length) (factor : α) :
    Agree (fun z z' => z.length = z'.length) (DenseVector.axpy x factor y)
      (DenseVector.axpy x' factor y') := by
  rw [DenseVector.axpy, DenseVector.axpy, hx, hy]
  split
  · exact .ok (by rw [List.length_zipWith, List.length_zipWith, hx, hy])
  · exact .error _

variable [Zero α] [One α] [Add α] [Mul α]

theorem mul (hu : u.Alike u') (hv : v.Alike v') :
    Agree Alike (mul u v).result (mul u' v').result := by
  cases hu with
  | scalar s =>
    cases hv with
    | scalar t => exact .ok (.scalar (s * t))
    | matrix hb => exact .ok (.matrix (hb.scale s))
    | vector hy => exact .ok (scale hy s)
  | matrix ha =>
    cases hv with
    | scalar t => exact .ok (.matrix (ha.scale t))
    | matrix hb =>
      rw [result_mul_matrix_matrix, result_mul_matrix_matrix]
      exact (ha.product hb).map fun _ _ => .matrix
    | vector hy =>
      rw [result_mul_matrix_vector, result_mul_matrix_vector]
      exact (ha.mulVec hy).map fun _ _ => .vector
  | vector hx =>
    cases hv with
    | scalar t => exact .ok (scale hx t)
    | matrix hb => exact (Alike.vector hx).incompatible (.matrix hb) .multiply
    | vector hy => exact (Alike.vector hx).incompatible (.vector hy) .multiply

variable [Neg α] (op : SumOp)

lemma addToZero (hv : v.Alike v') :
    Agree Alike (addToZero op v).result (addToZero op v').result := by
  cases op with
  | add => exact .ok hv
  | subtract => exact (Alike.scalar (-1)).mul hv

lemma addNonzero (hu : u.Alike u') (hv : v.Alike v') :
    Agree Alike (addNonzero op u v).result (addNonzero op u' v').result := by
  cases hu with
  | scalar s =>
    cases hv with
    | scalar t => exact .error _
    | matrix hb =>
      rw [result_addNonzero_scalar_matrix, result_addNonzero_scalar_matrix]
      exact (promote hb s).bind fun _ _ ha => (ha.axpy hb op.factor).map fun _ _ => .matrix
    | vector hy => exact (Alike.scalar s).incompatible (.vector hy) op.operation
  | matrix ha =>
    cases hv with
    | scalar t =>
      rw [result_addNonzero_matrix_scalar, result_addNonzero_matrix_scalar]
      exact (promote ha t).bind fun _ _ hb => (ha.axpy hb op.factor).map fun _ _ => .matrix
    | matrix hb => exact (Alike.matrix ha).incompatible (.matrix hb) op.operation
    | vector hy => exact (Alike.matrix ha).incompatible (.vector hy) op.operation
  | vector hx => exact (Alike.vector hx).incompatible hv op.operation

variable [BEq α]

lemma add_scalar_left (s : α) {t : Shape} (hv : v.Alike v') (h : v.shape? = some t) :
    Agree Alike (add op (.scalar s) v).result (add op (.scalar s) v').result := by
  rw [Value.add_scalar_left op s h, Value.add_scalar_left op s (hv.shape?.symm.trans h)]
  split
  · exact hv.addToZero op
  · exact (Alike.scalar s).addNonzero op hv

lemma add_scalar_right (s : α) {t : Shape} (hu : u.Alike u') (h : u.shape? = some t) :
    Agree Alike (add op u (.scalar s)).result (add op u' (.scalar s)).result := by
  rw [Value.add_scalar_right op s h, Value.add_scalar_right op s (hu.shape?.symm.trans h)]
  split
  · exact .ok hu
  · exact hu.addNonzero op (.scalar s)

theorem add (hu : u.Alike u') (hv : v.Alike v') :
    Agree Alike (add op u v).result (add op u' v').result := by
  cases hu with
  | scalar s =>
    cases hv with
    | scalar t => exact .ok (.scalar (s + op.factor * t))
    | matrix hb => exact add_scalar_left op s (.matrix hb) (shape?_matrix _)
    | vector hy => exact add_scalar_left op s (.vector hy) (shape?_vector _)
  | matrix ha =>
    cases hv with
    | scalar t => exact add_scalar_right op t (.matrix ha) (shape?_matrix _)
    | matrix hb =>
      rw [result_add_matrix, result_add_matrix]
      exact (ha.axpy hb op.factor).map fun _ _ => .matrix
    | vector hy => exact (Alike.matrix ha).incompatible (.vector hy) op.operation
  | vector hx =>
    cases hv with
    | scalar t => exact add_scalar_right op t (.vector hx) (shape?_vector _)
    | matrix hb => exact (Alike.vector hx).incompatible (.matrix hb) op.operation
    | vector hy =>
      rw [result_add_vector, result_add_vector]
      exact (vectorSum hx hy op.factor).map fun _ _ => .vector

end Alike
end Alike
end BlockSparse.Value
