import BlockSparse.Expr.Lumped
import BlockSparse.Proofs.Expr.Yield
import BlockSparse.Sparse.Compressed
import Mathlib.Algebra.Field.Rat

/-! The inverse of a lumped matrix, in exact arithmetic. It exists unless the stored values of a row
sum to zero, and it takes the product of the matrix with a vector of ones back to a vector of
ones. -/
namespace BlockSparse
variable {α : Type}

/-- The vector of the given length with all entries one. -/
def DenseVector.ones [One α] (n : Nat) : DenseVector α := List.replicate n 1

namespace SparseMatrix

/-- The square matrix that stores the given values along its diagonal and nothing else. -/
def diagonalOf (n : Nat) (f : Nat → α) : SparseMatrix α :=
  ⟨n, (List.range n).map fun i => [(i, f i)]⟩

lemma shape_diagonalOf (n : Nat) (f : Nat → α) : (diagonalOf n f).shape = .matrix n n := by
  simp [diagonalOf, shape, nrows]

lemma pattern_diagonalOf (n : Nat) (f : Nat → α) :
    (diagonalOf n f).pattern = (List.range n).map fun i => [i] := by
  simp [diagonalOf, pattern]

/-- In compressed form, the values stand one behind the other in the place of those of the
identity. -/
lemma compress_diagonalOf [One α] (n : Nat) (f : Nat → α) : (diagonalOf n f).compress =
    { (scaledIdentity n (1 : α)).compress with values := (List.range n).map f } := by
  simp [diagonalOf, scaledIdentity, compress, nrows, List.flatMap_map, Function.comp_def]
  exact List.map_eq_flatMap.symm

/-- The sum of the values that a row stores. -/
def rowTotal [Zero α] [Add α] (a : SparseMatrix α) (i : Nat) : α := ((a.row i).map Prod.snd).sum

section Product
variable [CommRing α] {a : SparseMatrix α}

lemma rowSum_eq (entries : List (Nat × α)) : rowSum entries = (entries.map Prod.snd).sum := by
  rw [rowSum, foldl_eq_sum fun _ _ => rfl, zero_add]

lemma dotRow_ones {n : Nat} {entries : List (Nat × α)} (h : RowWellFormed n entries) :
    dotRow entries (DenseVector.ones n) = (entries.map Prod.snd).sum := by
  rw [dotRow, foldl_eq_sum fun _ _ => rfl, zero_add]
  apply congrArg
  apply List.map_congr_left
  intro e he
  have hlt : e.1 < n := h.2 e.1 (List.mem_map_of_mem he)
  simp [DenseVector.ones, hlt]

/-- The product with a vector of ones lists the row sums. -/
lemma mulVec_ones (h : a.WellFormed) : a.mulVec (DenseVector.ones a.ncols) =
    .ok ((List.range a.nrows).map a.rowTotal) := by
  rw [mulVec_of_ncols_eq (by simp [DenseVector.ones])]
  apply congrArg Except.ok
  apply List.ext_getElem?
  intro i
  rw [List.getElem?_map, List.getElem?_map]
  by_cases hi : i < a.nrows
  · have hrow : a.rows[i]? = some (a.row i) := by
      rw [row, List.getElem?_eq_getElem hi]
      rfl
    rw [hrow, List.getElem?_range hi, Option.map_some, Option.map_some, dotRow_ones (h.row i)]
    rfl
  · rw [List.getElem?_eq_none (Nat.le_of_not_lt hi), List.getElem?_eq_none (by simpa using hi)]
    rfl

lemma mulVec_diagonalOf (n : Nat) (f g : Nat → α) :
    (diagonalOf n f).mulVec ((List.range n).map g) =
      .ok ((List.range n).map fun i => f i * g i) := by
  rw [mulVec_of_ncols_eq (by simp [diagonalOf]), diagonalOf, List.map_map]
  apply congrArg Except.ok
  apply List.map_congr_left
  intro i hi
  simp [dotRow, List.mem_range.1 hi]

end Product

section Lumped

lemma getElem?_zipIdx_rows {a : SparseMatrix α} {i : Nat} (hi : i < a.nrows) :
    a.rows.zipIdx[i]? = some (a.row i, i) := by
  rw [List.getElem?_zipIdx, row, List.getElem?_eq_getElem hi]
  simp

variable [Field α] [DecidableEq α] {a d : SparseMatrix α}

/-- Where no row sums to zero, the reciprocals of the row sums stand along the diagonal. -/
lemma lumpedInverse_of_forall (h : ∀ i < a.nrows, a.rowTotal i ≠ 0) :
    a.lumpedInverse = .ok (diagonalOf a.nrows fun i => 1 / a.rowTotal i) := by
  have hrows : (a.rows.zipIdx.map fun p => [(p.2, 1 / rowSum p.1)]) =
      (List.range a.nrows).map fun i => [(i, 1 / a.rowTotal i)] := by
    apply List.ext_getElem?
    intro i
    rw [List.getElem?_map, List.getElem?_map]
    by_cases hi : i < a.nrows
    · rw [getElem?_zipIdx_rows hi, List.getElem?_range hi, Option.map_some, Option.map_some,
        rowSum_eq, rowTotal]
    · rw [List.getElem?_eq_none (by simpa [nrows] using hi),
        List.getElem?_eq_none (by simpa using hi)]
      rfl
  unfold lumpedInverse
  rw [Traversal.mapM_eq_ok_of_forall (g := fun p => [(p.2, 1 / rowSum p.1)])]
  · rw [hrows]
    rfl
  · rintro ⟨entries, i⟩ hmem
    have hget := List.mem_zipIdx_iff_getElem?.1 hmem
    have hi : i < a.nrows := (List.getElem?_eq_some_iff.1 hget).1
    have hrow : a.row i = entries := by rw [row, hget]; rfl
    have hne : rowSum entries ≠ 0 := by
      rw [rowSum_eq, ← hrow]
      exact h i hi
    simp [hne]

/-- The first row that sums to zero is an error. -/
lemma lumpedInverse_of_first {i : Nat} (hi : i < a.nrows) (hzero : a.rowTotal i = 0)
    (hbefore : ∀ k < i, a.rowTotal k ≠ 0) :
    a.lumpedInverse = .error (.unsupported (.zeroRowSum i)) := by
  refine Traversal.bind_eq_error_iff.2 (.inl (Traversal.mapM_eq_error_iff.2 ?_))
  refine First.of_getElem? (getElem?_zipIdx_rows hi) ?_ fun k hk y hy d hd => ?_
  · have hsum : rowSum (a.row i) = 0 := (rowSum_eq _).trans hzero
    simp [hsum]
  · rw [getElem?_zipIdx_rows (hk.trans hi)] at hy
    cases hy
    have hsum : rowSum (a.row k) ≠ 0 := fun h => hbefore k hk ((rowSum_eq _).symm.trans h)
    simp [hsum] at hd

omit [DecidableEq α] in
lemma forall_ne_or_exists_first (a : SparseMatrix α) : (∀ i < a.nrows, a.rowTotal i ≠ 0) ∨
    ∃ i < a.nrows, a.rowTotal i = 0 ∧ ∀ k < i, a.rowTotal k ≠ 0 := by
  classical
  by_cases hex : ∃ i, i < a.nrows ∧ a.rowTotal i = 0
  · obtain ⟨hi, hzero⟩ := Nat.find_spec hex
    exact .inr ⟨Nat.find hex, hi, hzero, fun k hk h0 => Nat.find_min hex hk ⟨hk.trans hi, h0⟩⟩
  · exact .inl fun i hi h0 => hex ⟨i, hi, h0⟩

/-- There is no inverse exactly when a row sums to zero, and the first such row is reported. -/
theorem lumpedInverse_eq_error_iff {e : Error} : a.lumpedInverse = .error e ↔
    ∃ i < a.nrows, a.rowTotal i = 0 ∧ (∀ k < i, a.rowTotal k ≠ 0) ∧
      e = .unsupported (.zeroRowSum i) := by
  constructor
  · intro h
    obtain hall | ⟨i, hi, hzero, hbefore⟩ := forall_ne_or_exists_first a
    · rw [lumpedInverse_of_forall hall] at h
      cases h
    · rw [lumpedInverse_of_first hi hzero hbefore] at h
      cases h
      exact ⟨i, hi, hzero, hbefore, rfl⟩
  · rintro ⟨i, hi, hzero, hbefore, rfl⟩
    exact lumpedInverse_of_first hi hzero hbefore

theorem lumpedInverse_eq_ok_iff : a.lumpedInverse = .ok d ↔
    (∀ i < a.nrows, a.rowTotal i ≠ 0) ∧
      d = diagonalOf a.nrows fun i => 1 / a.rowTotal i := by
  constructor
  · intro h
    obtain hall | ⟨i, hi, hzero, hbefore⟩ := forall_ne_or_exists_first a
    · rw [lumpedInverse_of_forall hall] at h
      cases h
      exact ⟨hall, rfl⟩
    · rw [lumpedInverse_of_first hi hzero hbefore] at h
      cases h
  · rintro ⟨hall, rfl⟩
    exact lumpedInverse_of_forall hall

end Lumped

end SparseMatrix

namespace Expr
variable [Field α] [DecidableEq α] {a d : SparseMatrix α}

/-- The inverse is applied to what the product of a matrix with a vector comes to. -/
lemma eval_lumpedInverse_mul {x y z : DenseVector α} (hy : a.mulVec x = .ok y)
    (hz : d.mulVec y = .ok z) :
    (operator (.lumpedInverse d) * (matrix a * vector x)).eval = .ok (.vector z) := by
  have hinner : (matrix a * vector x).eval = .ok (.vector y) :=
    eval_product_pair rfl rfl (Value.mul_of_multiplied (.matrixVector hy))
  exact eval_product_pair rfl hinner (Value.mul_of_multiplied (.matrixVector hz))

/-- A matrix has a lumped inverse unless the values of a row sum to zero, as those of an empty row
do, and the first such row is reported. The inverse stores its diagonal and nothing else: its arrays
are those of the identity but for the values, which are the reciprocals of the row sums in their
order. Applied to the product of the matrix with ones it gives ones. -/
theorem lumpedInverse_outcome (h : a.WellFormed) :
    (∀ e, a.lumpedInverse = .error e ↔ ∃ i < a.nrows, a.rowTotal i = 0 ∧
      (∀ k < i, a.rowTotal k ≠ 0) ∧ e = .unsupported (.zeroRowSum i)) ∧
    ((∃ d, a.lumpedInverse = .ok d) ↔ ∀ i < a.nrows, a.rowTotal i ≠ 0) ∧
    ∀ d, a.lumpedInverse = .ok d →
      d.shape = .matrix a.nrows a.nrows ∧ d.pattern = ((List.range a.nrows).map fun i => [i]) ∧
      d.compress = { (SparseMatrix.scaledIdentity a.nrows (1 : α)).compress with
        values := (List.range a.nrows).map fun i => 1 / a.rowTotal i } ∧
      (operator (.lumpedInverse d) * (matrix a * vector (.ones a.ncols))).eval =
        .ok (.vector (.ones a.nrows)) := by
  refine ⟨fun e => SparseMatrix.lumpedInverse_eq_error_iff, ?_, fun d hd => ?_⟩
  · simp only [SparseMatrix.lumpedInverse_eq_ok_iff, exists_and_left, exists_eq, and_true]
  · obtain ⟨hne, rfl⟩ := SparseMatrix.lumpedInverse_eq_ok_iff.1 hd
    refine ⟨SparseMatrix.shape_diagonalOf .., SparseMatrix.pattern_diagonalOf ..,
      SparseMatrix.compress_diagonalOf .., ?_⟩
    have hones : ((List.range a.nrows).map fun i => 1 / a.rowTotal i * a.rowTotal i) =
        DenseVector.ones a.nrows := by
      rw [DenseVector.ones, List.eq_replicate_iff]
      refine ⟨by simp, fun x hx => ?_⟩
      obtain ⟨i, hi, rfl⟩ := List.mem_map.1 hx
      exact one_div_mul_cancel (hne i (List.mem_range.1 hi))
    rw [← hones]
    exact eval_lumpedInverse_mul (SparseMatrix.mulVec_ones h) (SparseMatrix.mulVec_diagonalOf ..)

/-- A matrix with fewer rows than columns. -/
def twoRows : SparseMatrix ℚ := ⟨3, [[(0, 1), (2, 2)], [(1, -4)]]⟩

/-- A matrix with an empty row above one whose values cancel. -/
def emptyRow : SparseMatrix ℚ := ⟨2, [[(1, 3)], [], [(0, 1), (1, -1)]]⟩

theorem lumpedInverse_outcome_twoRows :
    (twoRows.WellFormed ∧ twoRows.lumpedInverse = .ok ⟨2, [[(0, 1 / 3)], [(1, 1 / -4)]]⟩ ∧
      (operator (.lumpedInverse ⟨2, [[(0, 1 / 3)], [(1, 1 / -4)]]⟩) *
        (matrix twoRows * vector (.ones 3))).eval = .ok (.vector [1, 1])) ∧
    (emptyRow.WellFormed ∧ emptyRow.lumpedInverse = .error (.unsupported (.zeroRowSum 1))) := by
  have htwo : twoRows.WellFormed := by decide
  have hempty : emptyRow.WellFormed := by decide
  have hinverse : twoRows.lumpedInverse = .ok ⟨2, [[(0, 1 / 3)], [(1, 1 / -4)]]⟩ := by
    decide +kernel
  have hfirst : emptyRow.rowTotal 0 ≠ 0 := by decide +kernel
  refine ⟨⟨htwo, hinverse, ((lumpedInverse_outcome htwo).2.2 _ hinverse).2.2.2⟩, hempty, ?_⟩
  refine ((lumpedInverse_outcome hempty).1 _).2 ⟨1, by decide, rfl, fun k hk => ?_, rfl⟩
  rwa [Nat.lt_one_iff.1 hk]

end Expr
end BlockSparse
