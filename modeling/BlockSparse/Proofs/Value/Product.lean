import BlockSparse.Proofs.Shape
import BlockSparse.Proofs.Sparse.Equations
import BlockSparse.Proofs.Value.Dense
import BlockSparse.Proofs.Value.Pattern

/-! Products of values are associative where they are defined. What a product comes to is determined
by its dense contents and by its stored positions, and neither depends on the brackets; scalars may
stand anywhere. The well-formed values thus form a partial monoid. -/
namespace BlockSparse.Value
open SparseMatrix
open scoped SetRel
variable {α : Type} {u v w x y a b : Value α}

instance decidableWellFormed : (v : Value α) → Decidable v.WellFormed
  | scalar _ => .isTrue trivial
  | matrix a => inferInstanceAs (Decidable a.WellFormed)
  | vector _ => .isTrue trivial

/-- A well-formed value. -/
def Valid (α : Type) : Type := { v : Value α // v.WellFormed }

/-- The well-formed value to which a computation comes, if it does. -/
def valid? : Except Error (Value α) → Option (Valid α)
  | .ok v => if h : v.WellFormed then some ⟨v, h⟩ else none
  | .error _ => none

lemma valid?_of_wellFormed (h : v.WellFormed) : valid? (.ok v) = some ⟨v, h⟩ := dif_pos h

lemma valid?_eq_some_iff {r : Except Error (Value α)} {x : Valid α} :
    valid? r = some x ↔ r = .ok x.1 := by
  cases r with
  | error err => exact ⟨nofun, nofun⟩
  | ok v =>
    constructor
    · intro h
      rw [valid?] at h
      split at h
      · cases h
        rfl
      · cases h
    · intro h
      cases h
      exact valid?_of_wellFormed x.2

/-- What goes on with a well-formed value may as well start from the well-formed value. -/
lemma valid?_bind {r : Except Error (Value α)} {f : Value α → Except Error (Value α)}
    (hr : ∀ v, r = .ok v → v.WellFormed) :
    valid? (r >>= f) = valid? r >>= fun x => valid? (f x.1) := by
  cases r with
  | error err => rfl
  | ok v =>
    rw [valid?_of_wellFormed (hr v rfl)]
    rfl

section Dense
variable [CommRing α]

/-- The dense contents and the stored positions determine a well-formed value. -/
theorem ext_dense (hx : x.WellFormed) (hy : y.WellFormed) (hdense : x.dense = y.dense)
    (hpos : x.positions = y.positions) : x = y := by
  cases x with
  | scalar s =>
    cases y with
    | scalar t => exact congrArg scalar (DenseValue.scalar.inj hdense)
    | matrix b => cases hdense
    | vector y => cases hdense
  | matrix a =>
    cases y with
    | scalar t => cases hdense
    | matrix b =>
      obtain ⟨hrows, hcols, hvalue⟩ := DenseValue.table_inj hdense
      exact congrArg matrix (ext_value hx hy (shape_eq_iff.2 ⟨hrows, hcols⟩) hpos hvalue)
    | vector y => cases hdense
  | vector x =>
    cases y with
    | scalar t => cases hdense
    | matrix b => cases hdense
    | vector y =>
      rw [dense_vector, dense_vector] at hdense
      obtain ⟨hlen, hentry⟩ := DenseValue.column_inj hdense
      refine congrArg vector (List.ext_getElem hlen fun i hi hi' => ?_)
      simpa [hi, hi'] using hentry i hi

end Dense

section Product

/-- The stored positions of a value, where a scalar is told from what stores nothing. -/
def pattern? : Value α → Option (SetRel Nat Nat)
  | scalar _ => none
  | v => some v.positions

lemma positions_eq (v : Value α) : v.positions = v.pattern?.getD ∅ := by
  cases v <;> rfl

lemma pattern?_mul [Zero α] [One α] [Add α] [Mul α] (h : (mul u v).result = .ok w) :
    w.pattern? = Option.merge (· ○ ·) u.pattern? v.pattern? := by
  cases multiplied_of_mul h with
  | scalars s t => rfl
  | scalarMatrix s b => exact congrArg some (positions_scale b s)
  | matrixScalar a s => exact congrArg some (positions_scale a s)
  | scalarVector s y => rfl
  | vectorScalar x s => rfl
  | matrices hc => exact congrArg some (positions_product hc)
  | matrixVector hy => exact congrArg some (SetRel.comp_empty _).symm

variable [CommRing α]

/-- Both ways to bracket a product come to the same value. -/
lemma eq_of_mul_mul (hu : u.WellFormed) (hv : v.WellFormed) (hw : w.WellFormed)
    (ha : (mul u v).result = .ok a) (hx : (mul a w).result = .ok x)
    (hb : (mul v w).result = .ok b) (hy : (mul u b).result = .ok y) : x = y := by
  have hwa : a.WellFormed := wellFormed_mul hu hv ha
  have hwb : b.WellFormed := wellFormed_mul hv hw hb
  have hdense := DenseValue.mul_assoc u.dense v.dense w.dense
  rw [dense_mul hu ha, dense_mul hv hb] at hdense
  change a.dense.mul w.dense = u.dense.mul b.dense at hdense
  rw [dense_mul hwa hx, dense_mul hu hy] at hdense
  have hpattern : x.pattern? = y.pattern? := by
    rw [pattern?_mul hx, pattern?_mul ha, pattern?_mul hy, pattern?_mul hb]
    have hcomp : Std.Associative fun r t : SetRel Nat Nat => r ○ t := ⟨SetRel.comp_assoc⟩
    have hmerge : Std.Associative (Option.merge fun r t : SetRel Nat Nat => r ○ t) := inferInstance
    exact hmerge.assoc _ _ _
  apply ext_dense (wellFormed_mul hwa hw hx) (wellFormed_mul hu hwb hy) (Option.some.inj hdense)
  rw [positions_eq, positions_eq, hpattern]

/-- One way to bracket a product is defined exactly when the other one is, and they agree. -/
theorem mul_assoc_outcome (hu : u.WellFormed) (hv : v.WellFormed) (hw : w.WellFormed) :
    (∃ a, (mul u v).result = .ok a ∧ (mul a w).result = .ok x) ↔
      ∃ b, (mul v w).result = .ok b ∧ (mul u b).result = .ok x := by
  constructor
  · rintro ⟨a, ha, hx⟩
    obtain ⟨t, ht, hr⟩ := Shape.exists_product_iff.1 ⟨_, shape_of_mul ha, shape_of_mul hx⟩
    obtain ⟨b, hb, rfl⟩ := mul_outcome ht
    obtain ⟨y, hy, _⟩ := mul_outcome hr
    rw [eq_of_mul_mul hu hv hw ha hx hb hy]
    exact ⟨b, hb, hy⟩
  · rintro ⟨b, hb, hx⟩
    obtain ⟨t, ht, hr⟩ := Shape.exists_product_iff.2 ⟨_, shape_of_mul hb, shape_of_mul hx⟩
    obtain ⟨a, ha, rfl⟩ := mul_outcome ht
    obtain ⟨y, hy, _⟩ := mul_outcome hr
    rw [← eq_of_mul_mul hu hv hw ha hy hb hx]
    exact ⟨a, ha, hy⟩

lemma result_one_mul (v : Value α) : (mul (scalar 1) v).result = .ok v := by
  cases v with
  | scalar t => exact congrArg (Except.ok ∘ scalar) (one_mul t)
  | matrix a => exact congrArg (Except.ok ∘ matrix) (scale_one a)
  | vector x => exact congrArg (Except.ok ∘ vector) (by simp [DenseVector.scale])

/-- A scalar may stand on either side. -/
lemma mul_scalar_comm (s : α) (v : Value α) :
    (mul (scalar s) v).result = (mul v (scalar s)).result := by
  cases v with
  | scalar t => exact congrArg (Except.ok ∘ scalar) (mul_comm s t)
  | matrix a => rfl
  | vector x => rfl

instance : PartialMonoid (Valid α) where
  one := ⟨scalar 1, trivial⟩
  mul? u v := valid? (mul u.1 v.1).result
  one_mul? v := valid?_eq_some_iff.2 (result_one_mul v.1)
  mul?_one v := valid?_eq_some_iff.2 ((mul_scalar_comm 1 v.1).symm.trans (result_one_mul v.1))
  mul?_assoc u v w := by
    apply Option.ext
    intro x
    simp only [Option.bind_eq_bind, Option.bind_eq_some_iff, valid?_eq_some_iff]
    constructor
    · rintro ⟨a, ha, hx⟩
      obtain ⟨b, hb, hx⟩ := (mul_assoc_outcome u.2 v.2 w.2).1 ⟨a.1, ha, hx⟩
      exact ⟨⟨b, wellFormed_mul v.2 w.2 hb⟩, hb, hx⟩
    · rintro ⟨b, hb, hx⟩
      obtain ⟨a, ha, hx⟩ := (mul_assoc_outcome u.2 v.2 w.2).2 ⟨b.1, hb, hx⟩
      exact ⟨⟨a, wellFormed_mul u.2 v.2 ha⟩, ha, hx⟩

end Product

end BlockSparse.Value
