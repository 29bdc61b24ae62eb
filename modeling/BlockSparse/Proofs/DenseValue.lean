import BlockSparse.Expr.Basic
import Mathlib.Data.Matrix.Mul

/-! Dense values and their ordinary arithmetic, without regard to how values are stored. An
operation is undefined where the kinds or sizes of its operands do not fit together. -/
namespace BlockSparse

namespace SumOp
variable {α : Type}

/-- The sum or the difference of two operands. -/
def combine [Add α] [Sub α] : SumOp → α → α → α
  | add, a, b => a + b
  | subtract, a, b => a - b

variable [CommRing α]

lemma combine_eq (op : SumOp) (a b : α) : op.combine a b = a + op.factor * b := by
  cases op with
  | add => rw [combine, factor, one_mul]
  | subtract => rw [combine, factor, neg_one_mul, sub_eq_add_neg]

lemma combine_vector {n : Nat} (op : SumOp) (x y : Fin n → α) (i : Fin n) :
    op.combine x y i = op.combine (x i) (y i) := by
  cases op <;> rfl

lemma combine_matrix {m n : Nat} (op : SumOp) (a b : Matrix (Fin m) (Fin n) α) (i : Fin m)
    (j : Fin n) : op.combine a b i j = op.combine (a i j) (b i j) := by
  cases op <;> rfl

end SumOp

/-- A scalar, a matrix or a vector with every entry written out. -/
inductive DenseValue (α : Type) where
  | scalar (s : α)
  | matrix {m n : Nat} (a : Matrix (Fin m) (Fin n) α)
  | vector {n : Nat} (x : Fin n → α)

namespace DenseValue
variable {α : Type} {m m' n n' k k' : Nat}

/-- The kind of a dense value. -/
def kind : DenseValue α → Kind
  | scalar _ => .scalar
  | matrix _ => .matrix
  | vector _ => .vector

/-- The shape of a dense value; a scalar has none. -/
def shape? : DenseValue α → Option Shape
  | scalar _ => none
  | @matrix _ m n _ => some (.matrix m n)
  | @vector _ n _ => some (.vector n)

/-- The matrix of the given size with the given entries. -/
def table (m n : Nat) (f : Nat → Nat → α) : DenseValue α :=
  matrix (Matrix.of fun (i : Fin m) (j : Fin n) => f i j)

/-- The vector of the given length with the given entries. -/
def column (n : Nat) (p : Nat → α) : DenseValue α := vector fun i : Fin n => p i

lemma table_congr {f g : Nat → Nat → α} (hm : m = m') (hn : n = n')
    (h : ∀ i < m, ∀ j < n, f i j = g i j) : table m n f = table m' n' g := by
  subst hm hn
  apply congrArg matrix
  ext i j
  exact h i i.isLt j j.isLt

lemma column_congr {p q : Nat → α} (hn : n = n') (h : ∀ i < n, p i = q i) :
    column n p = column n' q := by
  subst hn
  apply congrArg vector
  ext i
  exact h i i.isLt

lemma table_inj {f g : Nat → Nat → α} (h : table m n f = table m' n' g) :
    m = m' ∧ n = n' ∧ ∀ i < m, ∀ j < n, f i j = g i j := by
  injection h with hm hn hfg
  subst hm hn
  refine ⟨rfl, rfl, fun i hi j hj => ?_⟩
  exact congrFun (congrFun (eq_of_heq hfg) ⟨i, hi⟩) ⟨j, hj⟩

lemma column_inj {p q : Nat → α} (h : column n p = column n' q) :
    n = n' ∧ ∀ i < n, p i = q i := by
  injection h with hn hpq
  subst hn
  exact ⟨rfl, fun i hi => congrFun (eq_of_heq hpq) ⟨i, hi⟩⟩

/-- The transpose of a matrix; a scalar is its own transpose. -/
def transpose : DenseValue α → Option (DenseValue α)
  | scalar s => some (scalar s)
  | matrix a => some (matrix a.transpose)
  | vector _ => none

variable [CommRing α]

section Product

/-- The product of two operands whose inner sizes agree. -/
def mul : DenseValue α → DenseValue α → Option (DenseValue α)
  | scalar s, scalar t => some (scalar (s * t))
  | scalar s, matrix b => some (matrix (s • b))
  | scalar s, vector y => some (vector (s • y))
  | matrix a, scalar t => some (matrix (t • a))
  | vector x, scalar t => some (vector (t • x))
  | @matrix _ _ k a, @matrix _ k' _ b =>
    if h : k = k' then some (matrix (a * b.submatrix (Fin.cast h) id)) else none
  | @matrix _ _ k a, @vector _ n y =>
    if h : k = n then some (vector (a.mulVec (y ∘ Fin.cast h))) else none
  | vector _, matrix _ => none
  | vector _, vector _ => none

@[simp] lemma mul_matrix_matrix (a : Matrix (Fin m) (Fin k) α) (b : Matrix (Fin k) (Fin n) α) :
    (matrix a).mul (matrix b) = some (matrix (a * b)) := dif_pos rfl

@[simp] lemma mul_matrix_vector (a : Matrix (Fin m) (Fin k) α) (y : Fin k → α) :
    (matrix a).mul (vector y) = some (vector (a.mulVec y)) := dif_pos rfl

lemma mul_matrix_matrix_of_ne (h : k ≠ k') (a : Matrix (Fin m) (Fin k) α)
    (b : Matrix (Fin k') (Fin n) α) : (matrix a).mul (matrix b) = none := dif_neg h

lemma mul_matrix_vector_of_ne (h : k ≠ k') (a : Matrix (Fin m) (Fin k) α) (y : Fin k' → α) :
    (matrix a).mul (vector y) = none := dif_neg h

lemma mul_table_table (f g : Nat → Nat → α) : (table m k f).mul (table k n g) =
    some (table m n fun i j => ∑ l ∈ Finset.range k, f i l * g l j) := by
  rw [table, table, mul_matrix_matrix]
  apply congrArg (some ∘ matrix)
  ext i j
  exact Matrix.mul_apply.trans (Fin.sum_univ_eq_sum_range (fun l => f i l * g l j) k)

lemma mul_table_column (f : Nat → Nat → α) (p : Nat → α) : (table m k f).mul (column k p) =
    some (column m fun i => ∑ l ∈ Finset.range k, f i l * p l) := by
  rw [table, column, mul_matrix_vector]
  apply congrArg (some ∘ vector)
  ext i
  exact Fin.sum_univ_eq_sum_range (fun l => f i l * p l) k

/-- Every entry multiplied by a scalar. -/
def scale (s : α) : DenseValue α → DenseValue α
  | scalar t => scalar (s * t)
  | matrix a => matrix (s • a)
  | vector x => vector (s • x)

lemma scalar_mul (s : α) (v : DenseValue α) : (scalar s).mul v = some (v.scale s) := by
  cases v <;> rfl

lemma mul_scalar (u : DenseValue α) (t : α) : u.mul (scalar t) = some (u.scale t) := by
  cases u with
  | scalar s => exact congrArg (some ∘ scalar) (mul_comm s t)
  | matrix a => rfl
  | vector x => rfl

lemma scale_scale (s t : α) (v : DenseValue α) : (v.scale t).scale s = v.scale (s * t) := by
  cases v with
  | scalar r => exact congrArg scalar (mul_assoc s t r).symm
  | matrix a => exact congrArg matrix (smul_smul s t a)
  | vector x => exact congrArg vector (smul_smul s t x)

/-- A scalar may be taken out of the left factor. -/
lemma scale_mul (s : α) (u v : DenseValue α) :
    (u.scale s).mul v = (u.mul v).map (scale s) := by
  cases u with
  | scalar t => rw [scale, scalar_mul, scalar_mul, Option.map_some, scale_scale]
  | @matrix m k a =>
    cases v with
    | scalar t => rw [mul_scalar, mul_scalar, Option.map_some, scale_scale, scale_scale, mul_comm]
    | @matrix k' n b => by_cases h : k = k' <;> simp [mul, scale, h]
    | @vector k' y => by_cases h : k = k' <;> simp [mul, scale, h, Matrix.smul_mulVec]
  | vector x =>
    cases v with
    | scalar t => rw [mul_scalar, mul_scalar, Option.map_some, scale_scale, scale_scale, mul_comm]
    | matrix b => rfl
    | vector y => rfl

/-- A scalar may be taken out of the right factor. -/
lemma mul_scale (s : α) (u v : DenseValue α) :
    u.mul (v.scale s) = (u.mul v).map (scale s) := by
  cases v with
  | scalar t => rw [scale, mul_scalar, mul_scalar, Option.map_some, scale_scale]
  | @matrix k' n b =>
    cases u with
    | scalar t => rw [scalar_mul, scalar_mul, Option.map_some, scale_scale, scale_scale, mul_comm]
    | @matrix m k a =>
      by_cases h : k = k'
      · subst h
        simp [scale]
      · simp [scale, mul_matrix_matrix_of_ne h]
    | vector x => rfl
  | @vector k' y =>
    cases u with
    | scalar t => rw [scalar_mul, scalar_mul, Option.map_some, scale_scale, scale_scale, mul_comm]
    | @matrix m k a =>
      by_cases h : k = k'
      · subst h
        simp [scale, Matrix.mulVec_smul]
      · simp [scale, mul_matrix_vector_of_ne h]
    | vector x => rfl

lemma scalar_mul_mul (s : α) (v w : DenseValue α) :
    ((scalar s).mul v >>= fun a => a.mul w) = v.mul w >>= (scalar s).mul := by
  rw [scalar_mul, Option.bind_eq_bind, Option.bind_some, scale_mul]
  cases v.mul w with
  | none => rfl
  | some b => exact (scalar_mul s b).symm

lemma mul_scalar_mul (u : DenseValue α) (t : α) (w : DenseValue α) :
    (u.mul (scalar t) >>= fun a => a.mul w) = (scalar t).mul w >>= u.mul := by
  rw [mul_scalar, scalar_mul]
  exact (scale_mul t u w).trans (mul_scale t u w).symm

lemma mul_mul_scalar (u v : DenseValue α) (r : α) :
    (u.mul v >>= fun a => a.mul (scalar r)) = v.mul (scalar r) >>= u.mul := by
  rw [mul_scalar, Option.bind_eq_bind, Option.bind_some, mul_scale]
  cases u.mul v with
  | none => rfl
  | some a => exact mul_scalar a r

/-- Where one way to bracket a product is defined, so is the other, and they agree. -/
protected theorem mul_assoc (u v w : DenseValue α) :
    (u.mul v >>= fun a => a.mul w) = v.mul w >>= u.mul := by
  cases u with
  | scalar s => exact scalar_mul_mul s v w
  | @matrix m k a =>
    cases v with
    | scalar t => exact mul_scalar_mul (matrix a) t w
    | @matrix k' l b =>
      cases w with
      | scalar r => exact mul_mul_scalar (matrix a) (matrix b) r
      | @matrix l' n c =>
        by_cases hk : k = k'
        · subst hk
          by_cases hl : l = l'
          · subst hl
            simp [Matrix.mul_assoc]
          · simp [mul_matrix_matrix_of_ne hl]
        · by_cases hl : l = l'
          · subst hl
            simp [mul_matrix_matrix_of_ne hk]
          · simp [mul_matrix_matrix_of_ne hk, mul_matrix_matrix_of_ne hl]
      | @vector l' z =>
        by_cases hk : k = k'
        · subst hk
          by_cases hl : l = l'
          · subst hl
            simp
          · simp [mul_matrix_vector_of_ne hl]
        · by_cases hl : l = l'
          · subst hl
            simp [mul_matrix_matrix_of_ne hk, mul_matrix_vector_of_ne hk]
          · simp [mul_matrix_matrix_of_ne hk, mul_matrix_vector_of_ne hl]
    | @vector k' y =>
      cases w with
      | scalar r => exact mul_mul_scalar (matrix a) (vector y) r
      | matrix c => by_cases hk : k = k' <;> simp [mul, hk]
      | vector z => by_cases hk : k = k' <;> simp [mul, hk]
  | vector x =>
    cases v with
    | scalar t => exact mul_scalar_mul (vector x) t w
    | @matrix k l b =>
      cases w with
      | scalar r => exact mul_mul_scalar (vector x) (matrix b) r
      | @matrix l' n c => by_cases hl : l = l' <;> simp [mul, hl]
      | @vector l' z => by_cases hl : l = l' <;> simp [mul, hl]
    | vector y =>
      cases w with
      | scalar r => exact mul_mul_scalar (vector x) (vector y) r
      | matrix c => rfl
      | vector z => rfl

/-- The product of a chain of operands, multiplied from left to right. -/
def leftProduct : List (DenseValue α) → Option (DenseValue α)
  | [] => none
  | u :: us => us.foldlM mul u

/-- The first operand may as well be multiplied last. -/
lemma leftProduct_cons_cons (u v : DenseValue α) (us : List (DenseValue α)) :
    leftProduct (u :: v :: us) = leftProduct (v :: us) >>= u.mul := by
  induction us generalizing v with
  | nil => simp [leftProduct]
  | cons w us ih =>
    have h := fun x => ih x
    simp only [leftProduct, List.foldlM_cons] at h ⊢
    calc (u.mul v >>= fun a => a.mul w >>= fun b => us.foldlM mul b)
        = (u.mul v >>= fun a => a.mul w) >>= fun b => us.foldlM mul b := (bind_assoc ..).symm
      _ = (v.mul w >>= u.mul) >>= fun b => us.foldlM mul b := by rw [DenseValue.mul_assoc]
      _ = v.mul w >>= fun c => u.mul c >>= fun b => us.foldlM mul b := bind_assoc ..
      _ = v.mul w >>= fun c => us.foldlM mul c >>= u.mul := by simp only [h]
      _ = (v.mul w >>= fun c => us.foldlM mul c) >>= u.mul := (bind_assoc ..).symm

end Product

section Sum

/-- The sum or difference, entry by entry, of two operands of the same shape. -/
def entrywise (op : SumOp) : DenseValue α → DenseValue α → Option (DenseValue α)
  | scalar s, scalar t => some (scalar (op.combine s t))
  | @matrix _ m n a, @matrix _ m' n' b =>
    if h : m = m' ∧ n = n' then
      some (matrix (op.combine a (b.submatrix (Fin.cast h.1) (Fin.cast h.2))))
    else none
  | @vector _ n x, @vector _ n' y =>
    if h : n = n' then some (vector (op.combine x (y ∘ Fin.cast h))) else none
  | _, _ => none

lemma entrywise_table (op : SumOp) (hm : m = m') (hn : n = n') (f g : Nat → Nat → α) :
    entrywise op (table m n f) (table m' n' g) =
      some (table m n fun i j => f i j + op.factor * g i j) := by
  subst hm hn
  simp only [table, entrywise, and_self, dite_true]
  apply congrArg (some ∘ matrix)
  ext i j
  exact (op.combine_matrix _ _ i j).trans (op.combine_eq _ _)

lemma entrywise_column (op : SumOp) (hn : n = n') (p q : Nat → α) :
    entrywise op (column n p) (column n' q) = some (column n fun i => p i + op.factor * q i) := by
  subst hn
  simp only [column, entrywise, dite_true]
  apply congrArg (some ∘ vector)
  ext i
  exact (op.combine_vector _ _ i).trans (op.combine_eq _ _)

variable [DecidableEq α]

/-- What the left operand of a sum stands for beside the right one: a scalar beside a matrix for a
multiple of the identity, and a scalar zero for nothing but zeros. -/
def beside : DenseValue α → DenseValue α → Option (DenseValue α)
  | scalar s, @matrix _ m n _ =>
    if s = 0 then some (matrix (0 : Matrix (Fin m) (Fin n) α))
    else if m = n then some (matrix (s • (1 : Matrix (Fin m) (Fin m) α)))
    else none
  | scalar s, @vector _ n _ => if s = 0 then some (vector (0 : Fin n → α)) else none
  | u, _ => some u

/-- The sum or difference of two operands. -/
def add (op : SumOp) (u v : DenseValue α) : Option (DenseValue α) := do
  let a ← u.beside v
  let b ← v.beside u
  entrywise op a b

lemma beside_zero_table (f : Nat → Nat → α) :
    (scalar 0).beside (table m n f) = some (table m n fun _ _ => 0) := if_pos rfl

lemma beside_zero_column (p : Nat → α) :
    (scalar 0).beside (column n p) = some (column n fun _ => 0) := if_pos rfl

lemma beside_table {s : α} (hs : s ≠ 0) (hmn : m = n) (f : Nat → Nat → α) :
    (scalar s).beside (table m n f) = some (table m n fun i j => if i = j then s else 0) := by
  subst hmn
  rw [table, beside, if_neg hs, if_pos rfl]
  apply congrArg (some ∘ matrix)
  ext i j
  rw [Matrix.smul_apply, Matrix.one_apply, smul_eq_mul, mul_ite, mul_one, mul_zero]
  simp only [Matrix.of_apply, Fin.ext_iff]

lemma add_eq {u v a b : DenseValue α} (op : SumOp) (hu : u.beside v = some a)
    (hv : v.beside u = some b) : add op u v = entrywise op a b := by
  rw [add, hu, hv]
  rfl

end Sum
end DenseValue
end BlockSparse
