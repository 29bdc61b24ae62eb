import BlockSparse.Sparse.Kernels
import Mathlib.Data.List.Forall2

/-! When the kernels succeed, what shape their results have, and that they keep matrices well
formed. None of this depends on the arithmetic of the scalars. -/
namespace BlockSparse.SparseMatrix
variable {α β : Type}

lemma shape_eq_iff {a : SparseMatrix α} {b : SparseMatrix β} :
    a.shape = b.shape ↔ a.nrows = b.nrows ∧ a.ncols = b.ncols := by
  simp [shape]

section Outcome
variable [Zero α] [Add α] [Mul α]

lemma mulVec_of_ncols_eq {a : SparseMatrix α} {x : DenseVector α} (h : a.ncols = x.length) :
    a.mulVec x = .ok (a.rows.map (dotRow · x)) := if_pos h

lemma mulVec_outcome {a : SparseMatrix α} {x : DenseVector α} (h : a.ncols = x.length) :
    ∃ y, a.mulVec x = .ok y ∧ y.length = a.nrows :=
  ⟨_, mulVec_of_ncols_eq h, by simp [nrows]⟩

lemma shape_of_mulVec {a : SparseMatrix α} {x y : DenseVector α} (h : a.mulVec x = .ok y) :
    a.ncols = x.length ∧ y.length = a.nrows := by
  unfold mulVec at h
  split at h
  · rename_i hinner
    cases h
    exact ⟨hinner, by simp [nrows]⟩
  · cases h

variable [One α]

lemma axpy_of_shape_eq {a b : SparseMatrix α} (h : a.shape = b.shape) (factor : α) :
    a.axpy factor b = .ok ⟨a.ncols, List.zipWith (axpyRow factor) a.rows b.rows⟩ := if_pos h

/-- A sum of matrices of one shape exists and has that shape. -/
lemma axpy_outcome {a b : SparseMatrix α} (h : a.shape = b.shape) (factor : α) :
    ∃ c, a.axpy factor b = .ok c ∧ c.shape = a.shape := by
  refine ⟨_, axpy_of_shape_eq h factor, ?_⟩
  have hrows : a.rows.length = b.rows.length := (shape_eq_iff.1 h).1
  simp [shape, nrows, hrows]

lemma shape_of_axpy {a b c : SparseMatrix α} {factor : α} (h : a.axpy factor b = .ok c) :
    a.shape = b.shape ∧ c.shape = a.shape := by
  by_cases hshape : a.shape = b.shape
  · obtain ⟨d, hd, hdshape⟩ := axpy_outcome hshape factor
    rw [hd] at h
    cases h
    exact ⟨hshape, hdshape⟩
  · rw [axpy, if_neg hshape] at h
    cases h

lemma product_of_ncols_eq {a b : SparseMatrix α} (h : a.ncols = b.nrows) :
    a.product b = .ok ⟨b.ncols, a.rows.map (productRow b)⟩ := if_pos h

/-- A product exists when the inner sizes agree. -/
lemma product_outcome {a b : SparseMatrix α} (h : a.ncols = b.nrows) :
    ∃ c, a.product b = .ok c ∧ c.shape = .matrix a.nrows b.ncols :=
  ⟨_, product_of_ncols_eq h, by simp [shape, nrows]⟩

lemma shape_of_product {a b c : SparseMatrix α} (h : a.product b = .ok c) :
    a.ncols = b.nrows ∧ c.shape = .matrix a.nrows b.ncols := by
  by_cases hinner : a.ncols = b.nrows
  · obtain ⟨d, hd, hdshape⟩ := product_outcome hinner
    rw [hd] at h
    cases h
    exact ⟨hinner, hdshape⟩
  · rw [product, if_neg hinner] at h
    cases h

end Outcome

section WellFormed

theorem wellFormed_mapValues {f : α → β} {a : SparseMatrix α} (h : a.WellFormed) :
    (a.mapValues f).WellFormed := by
  intro entries he
  obtain ⟨row, hrow, rfl⟩ := List.mem_map.1 he
  rw [RowWellFormed, List.map_map]
  exact h row hrow

theorem wellFormed_scaledIdentity (n : Nat) (s : α) : (scaledIdentity n s).WellFormed := by
  intro entries he
  obtain ⟨i, hi, rfl⟩ := List.mem_map.1 he
  refine ⟨List.pairwise_singleton _ _, fun j hj => ?_⟩
  rw [List.map_singleton, List.mem_singleton] at hj
  subst hj
  exact List.mem_range.1 hi

/-- A column lists its entries from top to bottom. -/
lemma column_wellFormed (a : SparseMatrix α) (j : Nat) : RowWellFormed a.nrows (a.column j) := by
  have hsub : ((a.column j).map Prod.fst).Sublist (a.rows.zipIdx.map Prod.snd) := by
    unfold column
    generalize a.rows.zipIdx = rows
    induction rows with
    | nil => simp
    | cons row rows ih =>
      obtain ⟨entries, i⟩ := row
      simp only [List.filterMap_cons, List.map_cons]
      cases entries.lookup j with
      | none => exact ih.cons i
      | some x => exact ih.cons_cons i
  rw [List.zipIdx_map_snd, ← List.range_eq_range'] at hsub
  refine ⟨List.Pairwise.sublist hsub List.pairwise_lt_range, fun i hi => ?_⟩
  exact List.mem_range.1 (hsub.subset hi)

theorem wellFormed_transpose (a : SparseMatrix α) : a.transpose.WellFormed := by
  intro entries he
  obtain ⟨j, _, rfl⟩ := List.mem_map.1 he
  exact column_wellFormed a j

variable [Zero α] [One α] [Add α] [Mul α]

lemma rowWellFormed_axpyRow {n : Nat} {factor : α} {a b : List (Nat × α)}
    (ha : RowWellFormed n a) (hb : RowWellFormed n b) : RowWellFormed n (axpyRow factor a b) := by
  unfold RowWellFormed
  rw [map_fst_axpyRow]
  refine ⟨Ascending.union_ascending hb.1, fun j hj => ?_⟩
  obtain hj | hj := Ascending.mem_union.1 hj
  · exact ha.2 j hj
  · exact hb.2 j hj

theorem wellFormed_axpy {a b c : SparseMatrix α} {factor : α} (ha : a.WellFormed)
    (hb : b.WellFormed) (h : a.axpy factor b = .ok c) : c.WellFormed := by
  unfold axpy at h
  split at h
  · rename_i hshape
    cases h
    intro entries he
    obtain ⟨i, hi, rfl⟩ := List.getElem_of_mem he
    rw [List.getElem_zipWith]
    apply rowWellFormed_axpyRow
    · exact ha _ (List.getElem_mem _)
    · have hb' := hb _ (List.getElem_mem (l := b.rows) (n := i) (by simp at hi; omega))
      rwa [← (shape_eq_iff.1 hshape).2] at hb'
  · cases h

lemma rowWellFormed_productRow {b : SparseMatrix α} (hb : b.WellFormed)
    (entries : List (Nat × α)) : RowWellFormed b.ncols (productRow b entries) := by
  unfold RowWellFormed
  rw [map_fst_productRow]
  refine ⟨productPattern_ascending b entries, fun j hj => ?_⟩
  obtain ⟨e, _, hj⟩ := mem_productPattern.1 hj
  exact (hb.row e.1).2 j hj

theorem wellFormed_product {a b c : SparseMatrix α} (hb : b.WellFormed)
    (h : a.product b = .ok c) : c.WellFormed := by
  unfold product at h
  split at h
  · cases h
    intro entries he
    obtain ⟨row, _, rfl⟩ := List.mem_map.1 he
    exact rowWellFormed_productRow hb row
  · cases h

end WellFormed
end BlockSparse.SparseMatrix
