import BlockSparse.Proofs.Value.Product

/-! Transposition of values. The transpose of a product is the product of the transposes in the
other order, and the transpose of a sum is the sum of the transposes; in both cases one exists
exactly when the other does. Vectors have no transpose, and everything else is its own second
transpose. -/
namespace BlockSparse.Value
variable {α : Type} {u v w u' v' x : Value α}

namespace Transposed

lemma unique (h : Transposed u v) (h' : Transposed u w) : v = w := by
  cases h <;> cases h' <;> rfl

lemma symm (hu : u.WellFormed) (h : Transposed u w) : Transposed w u := by
  cases h with
  | scalar s => exact .scalar s
  | matrix a =>
    have hback := Transposed.matrix a.transpose
    rwa [SparseMatrix.transpose_transpose hu] at hback

lemma wellFormed (h : Transposed u w) : w.WellFormed :=
  wellFormed_transpose (transpose_of_transposed h)

end Transposed

lemma noVector_of_transposed (h : Transposed u w) : Shape.NoVector u.shape? := by
  cases h <;> exact nofun

lemma exists_transposed (h : Shape.NoVector u.shape?) : ∃ w, Transposed u w := by
  cases u with
  | scalar s => exact ⟨_, .scalar s⟩
  | matrix a => exact ⟨_, .matrix a⟩
  | vector x => exact absurd rfl (h x.length)

lemma shape?_transposed_matrix (a : SparseMatrix α) :
    (matrix a.transpose).shape? = some (.matrix a.ncols a.nrows) :=
  congrArg some (SparseMatrix.shape_transpose a)

section Product
variable [CommRing α]

/-- The transpose of a product comes from the transposes of the factors. -/
lemma Multiplied.transposed (hu : u.WellFormed) (hv : v.WellFormed) (h : Multiplied u v w)
    (hx : Transposed w x) :
    ∃ u' v', Transposed u u' ∧ Transposed v v' ∧ Multiplied v' u' x := by
  cases h with
  | scalars s t =>
    cases hx
    refine ⟨_, _, .scalar s, .scalar t, ?_⟩
    rw [mul_comm s t]
    exact .scalars t s
  | scalarMatrix s b =>
    cases hx
    refine ⟨_, _, .scalar s, .matrix b, ?_⟩
    rw [SparseMatrix.transpose_scale s hv]
    exact .matrixScalar b.transpose s
  | matrixScalar a s =>
    cases hx
    refine ⟨_, _, .matrix a, .scalar s, ?_⟩
    rw [SparseMatrix.transpose_scale s hu]
    exact .scalarMatrix s a.transpose
  | scalarVector s y => cases hx
  | vectorScalar y s => cases hx
  | @matrices a b c hc =>
    cases hx
    exact ⟨_, _, .matrix a, .matrix b, .matrices (SparseMatrix.transpose_product hu hv hc)⟩
  | matrixVector hy => cases hx

end Product

section Sum
variable [Zero α] [One α] [Add α] [Mul α] [Neg α] [BEq α] {op : SumOp}

omit [BEq α] in
lemma addToZero_transposed (hv : v.WellFormed) (h : (addToZero op v).result = .ok w)
    (hx : Transposed w x) : ∃ v', Transposed v v' ∧ (addToZero op v').result = .ok x := by
  cases op with
  | add =>
    cases h
    exact ⟨x, hx, rfl⟩
  | subtract =>
    cases multiplied_of_mul h with
    | scalars s t =>
      cases hx
      exact ⟨_, .scalar t, rfl⟩
    | scalarMatrix s b =>
      cases hx
      refine ⟨_, .matrix b, ?_⟩
      rw [SparseMatrix.transpose_scale _ hv]
      rfl
    | scalarVector s y => cases hx

/-- The transpose of a sum comes from the transposes of the operands. -/
lemma Summed.transposed (hu : u.WellFormed) (hv : v.WellFormed) (h : Summed op u v w)
    (hx : Transposed w x) :
    ∃ u' v', Transposed u u' ∧ Transposed v v' ∧ Summed op u' v' x := by
  cases h with
  | scalars s t =>
    cases hx
    exact ⟨_, _, .scalar s, .scalar t, .scalars s t⟩
  | @matrices a b c hc =>
    cases hx
    exact ⟨_, _, .matrix a, .matrix b, .matrices (SparseMatrix.transpose_axpy hu hv hc)⟩
  | vectors hz => cases hx
  | @zeroLeft s v w t hs ht h =>
    obtain ⟨v', hv', hsum⟩ := addToZero_transposed hv h hx
    cases hv' with
    | scalar t => cases ht
    | matrix b =>
      exact ⟨_, _, .scalar s, .matrix b, .zeroLeft hs (shape?_transposed_matrix b) hsum⟩
  | @zeroRight u s t ht hs =>
    cases hx with
    | scalar t => cases ht
    | matrix a =>
      exact ⟨_, _, .matrix a, .scalar s, .zeroRight (shape?_transposed_matrix a) hs⟩
  | @identityLeft s b c hs hsq hc =>
    cases hx
    have hsum := SparseMatrix.transpose_axpy (SparseMatrix.wellFormed_scaledIdentity _ _) hv hc
    rw [SparseMatrix.transpose_scaledIdentity, hsq, ← SparseMatrix.nrows_transpose] at hsum
    refine ⟨_, _, .scalar s, .matrix b, .identityLeft hs ?_ hsum⟩
    rw [SparseMatrix.nrows_transpose, SparseMatrix.ncols_transpose, hsq]
  | @identityRight a s c hs hsq hc =>
    cases hx
    have hsum := SparseMatrix.transpose_axpy hu (SparseMatrix.wellFormed_scaledIdentity _ _) hc
    rw [SparseMatrix.transpose_scaledIdentity, hsq, ← SparseMatrix.nrows_transpose] at hsum
    refine ⟨_, _, .matrix a, .scalar s, .identityRight hs ?_ hsum⟩
    rw [SparseMatrix.nrows_transpose, SparseMatrix.ncols_transpose, hsq]

end Sum

section Turned
variable {p q : Partial (Valid α)} {z : Valid α}
variable {F G : Value α → Value α → Except Error (Value α)}

/-- The transpose of a value, if both are there. -/
def turned (p : Partial (Valid α)) : Partial (Valid α) :=
  Option.bind p fun u => valid? u.1.transpose.result

/-- What an operation gives on two values, if all are there. -/
def applied (F : Value α → Value α → Except Error (Value α)) (p q : Partial (Valid α)) :
    Partial (Valid α) :=
  Option.bind p fun u => Option.bind q fun v => valid? (F u.1 v.1)

lemma turned_eq_some_iff : turned p = .some z ↔ ∃ u, p = .some u ∧ Transposed u.1 z.1 := by
  refine Option.bind_eq_some_iff.trans (exists_congr fun u => and_congr_right fun _ => ?_)
  exact valid?_eq_some_iff.trans ⟨transposed_of_transpose, transpose_of_transposed⟩

lemma applied_eq_some_iff :
    applied F p q = .some z ↔ ∃ u v, p = .some u ∧ q = .some v ∧ F u.1 v.1 = .ok z.1 := by
  refine Option.bind_eq_some_iff.trans (exists_congr fun u => ?_)
  constructor
  · rintro ⟨hu, h⟩
    obtain ⟨v, hv, h⟩ := Option.bind_eq_some_iff.1 h
    exact ⟨v, hu, hv, valid?_eq_some_iff.1 h⟩
  · rintro ⟨v, hu, hv, h⟩
    exact ⟨hu, Option.bind_eq_some_iff.2 ⟨v, hv, valid?_eq_some_iff.2 h⟩⟩

/-- Without vectors, what is turned twice is as before. -/
lemma turned_turned (h : ∀ u, p = .some u → Shape.NoVector u.1.shape?) :
    turned (turned p) = p := by
  apply Option.ext
  intro z
  constructor
  · intro hz
    obtain ⟨w, hw, hz⟩ := turned_eq_some_iff.1 hz
    obtain ⟨u, hu, hw⟩ := turned_eq_some_iff.1 hw
    rw [hu, Subtype.ext ((hw.symm u.2).unique hz)]
    rfl
  · intro hz
    obtain ⟨w, hw⟩ := exists_transposed (h z hz)
    exact turned_eq_some_iff.2 ⟨⟨w, hw.wellFormed⟩, turned_eq_some_iff.2 ⟨z, hz, hw⟩, hw.symm z.2⟩

/-- The transpose of what one operation gives is what another one gives on the transposes. -/
def TurnsInto (F G : Value α → Value α → Except Error (Value α)) : Prop :=
  ∀ ⦃u v w x : Value α⦄, u.WellFormed → v.WellFormed → F u v = .ok w → Transposed w x →
    ∃ u' v', Transposed u u' ∧ Transposed v v' ∧ G u' v' = .ok x

lemma turned_applied (hFG : TurnsInto F G) (hGF : TurnsInto G F)
    (hshape : ∀ ⦃u v w⦄, G u v = .ok w → Shape.NoVector u.shape? → Shape.NoVector v.shape? →
      Shape.NoVector w.shape?) (p q : Partial (Valid α)) :
    turned (applied F p q) = applied G (turned p) (turned q) := by
  apply Option.ext
  intro z
  constructor
  · intro h
    obtain ⟨w, hw, hz⟩ := turned_eq_some_iff.1 h
    obtain ⟨u, v, hu, hv, hF⟩ := applied_eq_some_iff.1 hw
    obtain ⟨u', v', hu', hv', hG⟩ := hFG u.2 v.2 hF hz
    exact applied_eq_some_iff.2 ⟨⟨u', hu'.wellFormed⟩, ⟨v', hv'.wellFormed⟩,
      turned_eq_some_iff.2 ⟨u, hu, hu'⟩, turned_eq_some_iff.2 ⟨v, hv, hv'⟩, hG⟩
  · intro h
    obtain ⟨u', v', hu, hv, hG⟩ := applied_eq_some_iff.1 h
    obtain ⟨u, hu, hu'⟩ := turned_eq_some_iff.1 hu
    obtain ⟨v, hv, hv'⟩ := turned_eq_some_iff.1 hv
    have hvector : Shape.NoVector z.1.shape? := hshape hG
      (noVector_of_transposed (hu'.symm u.2)) (noVector_of_transposed (hv'.symm v.2))
    obtain ⟨w, hw⟩ := exists_transposed hvector
    -- the operands are the transposes of their transposes
    obtain ⟨u'', v'', hu'', hv'', hF⟩ := hGF u'.2 v'.2 hG hw
    rw [hu''.unique (hu'.symm u.2), hv''.unique (hv'.symm v.2)] at hF
    exact turned_eq_some_iff.2 ⟨⟨w, hw.wellFormed⟩, applied_eq_some_iff.2 ⟨u, v, hu, hv, hF⟩,
      hw.symm z.2⟩

variable [CommRing α]

/-- The transpose of a product is the product of the transposes in the other order. -/
lemma turned_mul (p q : Partial (Valid α)) : turned (p * q) = turned q * turned p := by
  have hmul : TurnsInto (fun u v : Value α => (mul u v).result) fun u v => (mul v u).result := by
    intro u v w x hu hv h hx
    obtain ⟨u', v', hu', hv', h⟩ := (multiplied_of_mul h).transposed hu hv hx
    exact ⟨u', v', hu', hv', mul_of_multiplied h⟩
  have hback : TurnsInto (fun u v : Value α => (mul v u).result) fun u v => (mul u v).result := by
    intro u v w x hu hv h hx
    obtain ⟨v', u', hv', hu', h⟩ := (multiplied_of_mul h).transposed hv hu hx
    exact ⟨u', v', hu', hv', mul_of_multiplied h⟩
  have hturned := turned_applied hmul hback
    (fun _ _ _ h hu hv => Shape.noVector_product (shape_of_mul h) hv hu) p q
  refine hturned.trans ?_
  cases turned p <;> cases turned q <;> rfl

/-- The transpose of a product of many factors turns them all round. -/
lemma turned_prod (ps : List (Partial (Valid α))) :
    turned ps.prod = (ps.map turned).reverse.prod := by
  induction ps with
  | nil => rfl
  | cons p ps ih =>
    rw [List.prod_cons, turned_mul, ih, List.map_cons, List.reverse_cons, List.prod_append,
      List.prod_singleton]

/-- The transpose of a sum is the sum of the transposes. -/
lemma turned_add [BEq α] (op : SumOp) (p q : Partial (Valid α)) :
    turned (applied (fun u v => (add op u v).result) p q) =
      applied (fun u v => (add op u v).result) (turned p) (turned q) := by
  have hadd : TurnsInto (fun u v : Value α => (add op u v).result) fun u v =>
      (add op u v).result := by
    intro u v w x hu hv h hx
    obtain ⟨u', v', hu', hv', h⟩ := (summed_of_add h).transposed hu hv hx
    exact ⟨u', v', hu', hv', add_of_summed h⟩
  exact turned_applied hadd hadd
    (fun _ _ _ h hu hv => Shape.noVector_sum (shape_of_add h) hu hv) p q

end Turned

end BlockSparse.Value
