import BlockSparse.Proofs.Sparse.Values
import BlockSparse.Proofs.Traversal
import Mathlib.Data.Rel

/-! Where kernels store entries, values aside. The stored positions of a matrix are a relation
between rows and columns: sums unite these relations, products compose them, transposition turns
them round, and scaling keeps them. Matrices of one pattern therefore give results of one pattern,
whatever their values. -/
namespace BlockSparse
open scoped SetRel

namespace SparseMatrix
variable {α : Type} {a b c : SparseMatrix α} {i j : Nat}

/-- The stored positions, as a relation between rows and columns. -/
def positions (a : SparseMatrix α) : SetRel Nat Nat := {p | p.2 ∈ a.rowPattern p.1}

lemma mem_positions_iff : (i, j) ∈ a.positions ↔ j ∈ a.rowPattern i := Iff.rfl

/-- The positions on the diagonal of a square matrix. -/
def diagonal (n : Nat) : SetRel Nat Nat := {p | p.1 = p.2 ∧ p.1 < n}

lemma rowPattern_eq_pattern (a : SparseMatrix α) (i : Nat) :
    a.rowPattern i = a.pattern[i]?.getD [] := by
  rw [rowPattern, row, pattern, List.getElem?_map]
  cases a.rows[i]? <;> rfl

lemma positions_congr (h : a.pattern = b.pattern) : a.positions = b.positions := by
  ext ⟨i, j⟩
  rw [mem_positions_iff, mem_positions_iff, rowPattern_eq_pattern, rowPattern_eq_pattern, h]

lemma isSome_lookup_iff {entries : List (Nat × α)} :
    (entries.lookup j).isSome ↔ j ∈ entries.map Prod.fst := by
  rw [Option.isSome_iff_ne_none, ne_eq, lookup_eq_none_iff, not_not]

lemma isSome_stored?_iff : (a.stored? i j).isSome ↔ j ∈ a.rowPattern i := isSome_lookup_iff

lemma positions_transpose (h : a.WellFormed) : a.transpose.positions = a.positions.inv := by
  ext ⟨j, i⟩
  rw [SetRel.mem_inv, mem_positions_iff, mem_positions_iff, ← isSome_stored?_iff,
    ← isSome_stored?_iff]
  by_cases hj : j < a.ncols
  · rw [stored?_transpose a hj]
  · have hnone : a.transpose.row j = [] := by simp [row, transpose, hj]
    have hout : a.stored? i j = none := lookup_eq_none_iff.2 fun hmem => hj ((h.row i).2 j hmem)
    rw [stored?, hnone, hout]
    rfl

lemma positions_scale [Mul α] (a : SparseMatrix α) (s : α) : (a.scale s).positions = a.positions :=
  positions_congr (pattern_mapValues (· * s) a)

lemma positions_scaledIdentity (n : Nat) (s : α) : (scaledIdentity n s).positions = diagonal n := by
  ext ⟨i, j⟩
  rw [mem_positions_iff, rowPattern, row, scaledIdentity]
  by_cases hi : i < n
  · simp [diagonal, hi, eq_comm]
  · simp [diagonal, hi]

section Arithmetic
variable [Zero α] [One α] [Add α] [Mul α]

lemma positions_axpy {factor : α} (h : a.axpy factor b = .ok c) :
    c.positions = a.positions ∪ b.positions := by
  ext ⟨i, j⟩
  rw [Set.mem_union, mem_positions_iff, mem_positions_iff, mem_positions_iff, rowPattern,
    row_axpy h, map_fst_axpyRow, Ascending.mem_union]
  rfl

lemma positions_product (h : a.product b = .ok c) : c.positions = a.positions ○ b.positions := by
  ext ⟨i, j⟩
  rw [SetRel.mem_comp, mem_positions_iff, rowPattern, row_product h, map_fst_productRow,
    mem_productPattern]
  constructor
  · rintro ⟨e, he, hj⟩
    exact ⟨e.1, List.mem_map.2 ⟨e, he, rfl⟩, hj⟩
  · rintro ⟨k, hk, hj⟩
    obtain ⟨e, he, rfl⟩ := List.mem_map.1 hk
    exact ⟨e, he, hj⟩

end Arithmetic

/-- Two matrices of one shape that store the same positions. -/
structure SamePattern (a b : SparseMatrix α) : Prop where
  ncols : a.ncols = b.ncols
  pattern : a.pattern = b.pattern

namespace SamePattern
variable {a' b' : SparseMatrix α}

lemma refl (a : SparseMatrix α) : a.SamePattern a := ⟨rfl, rfl⟩

lemma nrows (h : a.SamePattern b) : a.nrows = b.nrows := by
  have hlen := congrArg List.length h.pattern
  rwa [SparseMatrix.pattern, SparseMatrix.pattern, List.length_map, List.length_map] at hlen

lemma shape (h : a.SamePattern b) : a.shape = b.shape := shape_eq_iff.2 ⟨h.nrows, h.ncols⟩

lemma rowPattern (h : a.SamePattern b) (i : Nat) : a.rowPattern i = b.rowPattern i := by
  rw [rowPattern_eq_pattern, rowPattern_eq_pattern, h.pattern]

lemma scale [Mul α] (h : a.SamePattern b) (s : α) : (a.scale s).SamePattern (b.scale s) where
  ncols := h.ncols
  pattern := by rw [SparseMatrix.scale, SparseMatrix.scale, pattern_mapValues, pattern_mapValues,
    h.pattern]

lemma map_fst_column (a : SparseMatrix α) (j : Nat) : (a.column j).map Prod.fst =
    a.pattern.zipIdx.filterMap fun (cols, i) => if j ∈ cols then some i else none := by
  rw [column, SparseMatrix.pattern, List.zipIdx_map, List.map_filterMap, List.filterMap_map]
  apply List.filterMap_congr
  rintro ⟨entries, i⟩ _
  change ((entries.lookup j).map fun x => (i, x)).map Prod.fst =
    if j ∈ entries.map Prod.fst then some i else none
  cases hl : entries.lookup j with
  | none =>
    rw [if_neg (lookup_eq_none_iff.1 hl)]
    rfl
  | some x =>
    rw [if_pos (isSome_lookup_iff.1 (Option.isSome_of_eq_some hl))]
    rfl

lemma transpose (h : a.SamePattern b) : a.transpose.SamePattern b.transpose where
  ncols := h.nrows
  pattern := by
    rw [SparseMatrix.pattern, SparseMatrix.pattern, SparseMatrix.transpose, SparseMatrix.transpose,
      List.map_map, List.map_map, h.ncols]
    apply List.map_congr_left
    intro j _
    simp only [Function.comp_apply, map_fst_column, h.pattern]

lemma productPattern_eq (b : SparseMatrix α) (entries : List (Nat × α)) :
    productPattern b entries = (entries.map Prod.fst).foldr
      (fun k s => Ascending.union (b.rowPattern k) s) [] := by
  rw [productPattern, List.foldr_map]

variable [Zero α] [One α] [Add α] [Mul α]

lemma pattern_zipWith_axpyRow (n : Nat) (factor : α) (a b : SparseMatrix α) :
    (SparseMatrix.mk n (List.zipWith (axpyRow factor) a.rows b.rows)).pattern =
      List.zipWith Ascending.union a.pattern b.pattern := by
  simp [SparseMatrix.pattern, List.map_zipWith, List.zipWith_map]

lemma axpy (ha : a.SamePattern a') (hb : b.SamePattern b') (factor : α) :
    Agree SamePattern (a.axpy factor b) (a'.axpy factor b') := by
  by_cases h : a.shape = b.shape
  · have h' : a'.shape = b'.shape := by rw [← ha.shape, ← hb.shape, h]
    rw [axpy_of_shape_eq h, axpy_of_shape_eq h']
    refine .ok ⟨ha.ncols, ?_⟩
    rw [pattern_zipWith_axpyRow, pattern_zipWith_axpyRow, ha.pattern, hb.pattern]
  · have h' : a'.shape ≠ b'.shape := by rwa [← ha.shape, ← hb.shape]
    rw [SparseMatrix.axpy, SparseMatrix.axpy, if_neg h, if_neg h', ha.shape, hb.shape]
    exact .error _

lemma pattern_map_productRow (n : Nat) (a b : SparseMatrix α) :
    (SparseMatrix.mk n (a.rows.map (productRow b))).pattern = a.pattern.map fun cols =>
      cols.foldr (fun k s => Ascending.union (b.rowPattern k) s) [] := by
  simp [SparseMatrix.pattern, productPattern_eq, Function.comp_def]

lemma product (ha : a.SamePattern a') (hb : b.SamePattern b') :
    Agree SamePattern (a.product b) (a'.product b') := by
  by_cases h : a.ncols = b.nrows
  · have h' : a'.ncols = b'.nrows := by rw [← ha.ncols, ← hb.nrows, h]
    rw [product_of_ncols_eq h, product_of_ncols_eq h']
    refine .ok ⟨hb.ncols, ?_⟩
    rw [pattern_map_productRow, pattern_map_productRow, ha.pattern, funext hb.rowPattern]
  · have h' : a'.ncols ≠ b'.nrows := by rwa [← ha.ncols, ← hb.nrows]
    rw [SparseMatrix.product, SparseMatrix.product, if_neg h, if_neg h', ha.shape, hb.shape]
    exact .error _

omit [One α] in
lemma mulVec (ha : a.SamePattern a') {x y : DenseVector α} (hx : x.length = y.length) :
    Agree (fun x y => x.length = y.length) (a.mulVec x) (a'.mulVec y) := by
  by_cases h : a.ncols = x.length
  · have h' : a'.ncols = y.length := by rw [← ha.ncols, ← hx, h]
    rw [mulVec_of_ncols_eq h, mulVec_of_ncols_eq h']
    exact .ok (by rw [List.length_map, List.length_map]; exact ha.nrows)
  · have h' : a'.ncols ≠ y.length := by rwa [← ha.ncols, ← hx]
    rw [SparseMatrix.mulVec, SparseMatrix.mulVec, if_neg h, if_neg h', ha.shape, hx]
    exact .error _

end SamePattern

end SparseMatrix
end BlockSparse
