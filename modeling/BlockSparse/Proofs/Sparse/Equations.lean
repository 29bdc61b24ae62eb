import BlockSparse.Proofs.Sparse.Pattern
import Mathlib.Data.List.Sort

/-! Equations between sparse matrices. A well-formed matrix is determined by its shape and by what
it stores, so that matrices can be compared position by position. Transposition is its own inverse,
goes through scalings and sums, and turns products round. -/
namespace BlockSparse.SparseMatrix
open scoped SetRel
variable {α : Type} {a b c : SparseMatrix α}

section Extensionality

lemma eq_of_lookup {r r' : List (Nat × α)} (h : Ascending (r.map Prod.fst))
    (h' : Ascending (r'.map Prod.fst)) (heq : ∀ j, r.lookup j = r'.lookup j) : r = r' := by
  have hirrefl : Std.Irrefl fun p q : Nat × α => p.1 < q.1 := ⟨fun p => Nat.lt_irrefl p.1⟩
  have hanti : Std.Antisymm fun p q : Nat × α => p.1 < q.1 :=
    ⟨fun _ _ hpq hqp => absurd hqp (Nat.lt_asymm hpq)⟩
  apply (List.pairwise_map.1 h).eq_of_mem_iff (List.pairwise_map.1 h')
  rintro ⟨j, x⟩
  rw [← lookup_eq_some_iff h, ← lookup_eq_some_iff h', heq]

/-- Well-formed matrices of one shape are equal if they store the same. -/
theorem ext_stored (ha : a.WellFormed) (hb : b.WellFormed) (hshape : a.shape = b.shape)
    (h : ∀ i j, a.stored? i j = b.stored? i j) : a = b := by
  obtain ⟨hrows, hcols⟩ := shape_eq_iff.1 hshape
  have heq : a.rows = b.rows := by
    apply List.ext_getElem hrows
    intro i hi hi'
    have hrow : a.row i = b.row i := eq_of_lookup (ha.row i).1 (hb.row i).1 (h i)
    rwa [row, row, List.getElem?_eq_getElem hi, List.getElem?_eq_getElem hi'] at hrow
  cases a
  cases b
  cases hcols
  cases heq
  rfl

lemma lt_nrows_of_mem {i j : Nat} (h : j ∈ a.rowPattern i) : i < a.nrows := by
  by_contra hi
  have hrow : a.row i = [] := by
    rw [row, List.getElem?_eq_none (not_lt.1 hi)]
    rfl
  rw [rowPattern, hrow] at h
  cases h

/-- Where both matrices store something or neither does, equal values are equal entries. -/
lemma stored?_eq_of_value [Zero α] {i j : Nat} (hmem : j ∈ a.rowPattern i ↔ j ∈ b.rowPattern i)
    (h : a.value i j = b.value i j) : a.stored? i j = b.stored? i j := by
  rw [← isSome_stored?_iff, ← isSome_stored?_iff] at hmem
  rw [value, value] at h
  cases hx : a.stored? i j with
  | none =>
    rw [hx] at hmem
    cases hy : b.stored? i j with
    | none => rfl
    | some y => simp [hy] at hmem
  | some x =>
    rw [hx] at hmem
    obtain ⟨y, hy⟩ := Option.isSome_iff_exists.1 (hmem.1 rfl)
    rw [hx, hy] at h
    rw [hy]
    exact congrArg some h

/-- Well-formed matrices of one shape are equal if they store the same positions and have the same
values. -/
theorem ext_value [Zero α] (ha : a.WellFormed) (hb : b.WellFormed) (hshape : a.shape = b.shape)
    (hpos : a.positions = b.positions)
    (h : ∀ i < a.nrows, ∀ j < a.ncols, a.value i j = b.value i j) : a = b := by
  apply ext_stored ha hb hshape
  intro i j
  have hmem : j ∈ a.rowPattern i ↔ j ∈ b.rowPattern i := by
    rw [← mem_positions_iff, ← mem_positions_iff, hpos]
  by_cases hstored : j ∈ a.rowPattern i
  · exact stored?_eq_of_value hmem (h i (lt_nrows_of_mem hstored) j ((ha.row i).2 j hstored))
  · rw [stored?, stored?, lookup_eq_none_iff.2 hstored,
      lookup_eq_none_iff.2 fun hmem' => hstored (hmem.2 hmem')]

end Extensionality

lemma scale_one [MulOneClass α] (a : SparseMatrix α) : a.scale 1 = a := by
  simp [scale, mapValues]

section Transpose

lemma stored?_transpose_of_wellFormed (h : a.WellFormed) (i j : Nat) :
    a.transpose.stored? j i = a.stored? i j := by
  by_cases hj : j < a.ncols
  · exact stored?_transpose a hj
  · have hrow : a.transpose.row j = [] := by simp [row, transpose, hj]
    have hnone : a.stored? i j = none := lookup_eq_none_iff.2 fun hmem => hj ((h.row i).2 j hmem)
    rw [stored?, hrow, hnone]
    rfl

lemma mem_rowPattern_transpose (h : a.WellFormed) (i j : Nat) :
    i ∈ a.transpose.rowPattern j ↔ j ∈ a.rowPattern i := by
  rw [← isSome_stored?_iff, ← isSome_stored?_iff, stored?_transpose_of_wellFormed h]

lemma nrows_transpose (a : SparseMatrix α) : a.transpose.nrows = a.ncols :=
  (Shape.matrix.inj (shape_transpose a)).1

lemma ncols_transpose (a : SparseMatrix α) : a.transpose.ncols = a.nrows := rfl

lemma shape_transpose_congr (h : a.shape = b.shape) : a.transpose.shape = b.transpose.shape := by
  obtain ⟨hrows, hcols⟩ := shape_eq_iff.1 h
  rw [shape_transpose, shape_transpose, hrows, hcols]

theorem transpose_transpose (h : a.WellFormed) : a.transpose.transpose = a := by
  apply ext_stored (wellFormed_transpose _) h
  · rw [shape_transpose, nrows_transpose]
    rfl
  · intro i j
    rw [stored?_transpose_of_wellFormed (wellFormed_transpose a),
      stored?_transpose_of_wellFormed h]

lemma transpose_mapValues {β : Type} (f : α → β) (h : a.WellFormed) :
    (a.mapValues f).transpose = a.transpose.mapValues f := by
  apply ext_stored (wellFormed_transpose _) (wellFormed_mapValues (wellFormed_transpose a))
  · rw [shape_transpose, shape_mapValues, shape_transpose, nrows_mapValues]
    rfl
  · intro j i
    rw [stored?_transpose_of_wellFormed (wellFormed_mapValues h), stored?_mapValues,
      stored?_mapValues, stored?_transpose_of_wellFormed h]

theorem transpose_scale [Mul α] (s : α) (h : a.WellFormed) :
    (a.scale s).transpose = a.transpose.scale s := transpose_mapValues (· * s) h

lemma stored?_scaledIdentity_eq (n : Nat) (s : α) (i j : Nat) :
    (scaledIdentity n s).stored? i j = if i = j ∧ i < n then some s else none := by
  by_cases hi : i < n
  · rw [stored?_scaledIdentity s hi]
    simp [hi]
  · have hrow : (scaledIdentity n s).row i = [] := by simp [row, scaledIdentity, hi]
    rw [stored?, hrow, if_neg fun h => hi h.2]
    rfl

theorem transpose_scaledIdentity (n : Nat) (s : α) :
    (scaledIdentity n s).transpose = scaledIdentity n s := by
  have hwf := wellFormed_scaledIdentity n s
  apply ext_stored (wellFormed_transpose _) hwf
  · obtain ⟨hrows, hcols⟩ := Shape.matrix.inj (shape_scaledIdentity n s)
    rw [shape_transpose, hrows, hcols, shape_scaledIdentity]
  · intro j i
    have hiff : i = j ∧ i < n ↔ j = i ∧ j < n := by
      constructor
      · rintro ⟨rfl, h⟩
        exact ⟨rfl, h⟩
      · rintro ⟨rfl, h⟩
        exact ⟨rfl, h⟩
    rw [stored?_transpose_of_wellFormed hwf, stored?_scaledIdentity_eq, stored?_scaledIdentity_eq]
    simp only [hiff]

section Sum
variable [Zero α] [One α] [Add α] [Mul α]

theorem transpose_axpy {factor : α} (ha : a.WellFormed) (hb : b.WellFormed)
    (h : a.axpy factor b = .ok c) : a.transpose.axpy factor b.transpose = .ok c.transpose := by
  obtain ⟨hab, hca⟩ := shape_of_axpy h
  obtain ⟨d, hd, hshape⟩ := axpy_outcome (shape_transpose_congr hab) factor
  have hdwf := wellFormed_axpy (wellFormed_transpose a) (wellFormed_transpose b) hd
  rw [hd]
  apply congrArg
  apply ext_stored hdwf (wellFormed_transpose c)
  · rw [hshape, shape_transpose_congr hca]
  · intro j i
    rw [stored?_transpose_of_wellFormed (wellFormed_axpy ha hb h), stored?_axpy h, stored?_axpy hd]
    simp only [mem_rowPattern_transpose ha, mem_rowPattern_transpose hb,
      stored?_transpose_of_wellFormed ha, stored?_transpose_of_wellFormed hb]

end Sum

/-- The transpose of a product is the product of the transposes in the other order. -/
theorem transpose_product [CommRing α] (ha : a.WellFormed) (hb : b.WellFormed)
    (h : a.product b = .ok c) : b.transpose.product a.transpose = .ok c.transpose := by
  obtain ⟨hinner, hcshape⟩ := shape_of_product h
  have hinner' : b.transpose.ncols = a.transpose.nrows := by
    rw [ncols_transpose, nrows_transpose, hinner]
  obtain ⟨d, hd, hshape⟩ := product_outcome hinner'
  have hcwf := wellFormed_product hb h
  obtain ⟨hrows, hcols⟩ := Shape.matrix.inj hcshape
  obtain ⟨hdrows, hdcols⟩ := Shape.matrix.inj hshape
  rw [hd]
  apply congrArg
  apply ext_value (wellFormed_product (wellFormed_transpose a) hd) (wellFormed_transpose c)
  · rw [hshape, shape_transpose, hrows, hcols, nrows_transpose, ncols_transpose]
  · rw [positions_product hd, positions_transpose ha, positions_transpose hb,
      positions_transpose hcwf, positions_product h, SetRel.inv_comp]
  · intro j hj i hi
    have hjb : j < b.ncols := by rwa [hdrows, nrows_transpose] at hj
    have hjc : j < c.ncols := by rwa [hcols]
    rw [value_product (wellFormed_transpose b) hd, value_transpose c hjc, value_product ha h,
      ncols_transpose, hinner]
    apply Finset.sum_congr rfl
    intro k hk
    have hka : k < a.ncols := by rw [hinner]; exact Finset.mem_range.1 hk
    rw [value_transpose b hjb, value_transpose a hka, mul_comm]

end Transpose
end BlockSparse.SparseMatrix
