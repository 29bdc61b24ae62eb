import BlockSparse.Proofs.Block.Cells
import BlockSparse.Proofs.Block.Entries
import BlockSparse.Proofs.Expr.LeftSum

/-! Products of block matrices. The product of two grids of matrices has, at each place, the sum of
the products of the blocks along a row of the first and a column of the second grid. It is
assembled to the product of the two assembled matrices: the sums over the stored entries of a whole
row split at the borders of the blocks, and so do the positions at which something is stored. -/
namespace BlockSparse
open Offsets Finset
variable {α : Type}

namespace ResolvedGrid
variable {r rA rB rC : ResolvedGrid α} {A B C : Nat → Nat → SparseMatrix α} {i j p q : Nat}

/-- A resolved grid whose cells are the given matrices. -/
structure OfMatrices (r : ResolvedGrid α) (A : Nat → Nat → SparseMatrix α) : Prop where
  wellFormed : r.WellFormed
  cells : ∀ i < r.cells.numRows, ∀ j < r.cells.numCols, r.cells.get? i j = some (.matrix (A i j))

namespace OfMatrices

lemma fits (h : r.OfMatrices A) (hi : i < r.cells.numRows) (hj : j < r.cells.numCols) :
    (A i j).WellFormed ∧ (A i j).nrows = r.sizes.rowSize i ∧ (A i j).ncols = r.sizes.colSize j :=
  h.wellFormed.fits i j _ (h.cells i hi j hj)

lemma stored?_eq (h : r.OfMatrices A) (hp : p < r.sizes.rowSize i) (hq : q < r.sizes.colSize j) :
    r.assembled.stored? (position r.sizes.rowSizes i p) (position r.sizes.colSizes j q) =
      (A i j).stored? p q := by
  have hi : i < r.cells.numRows := h.wellFormed.rows ▸ lt_length_of_lt hp
  have hj : j < r.cells.numCols := h.wellFormed.cols ▸ lt_length_of_lt hq
  exact stored?_assembled h.wellFormed (h.cells i hi j hj) hp hq

lemma value_eq [Zero α] (h : r.OfMatrices A) (hp : p < r.sizes.rowSize i)
    (hq : q < r.sizes.colSize j) :
    r.assembled.value (position r.sizes.rowSizes i p) (position r.sizes.colSizes j q) =
      (A i j).value p q := congrArg (·.getD 0) (h.stored?_eq hp hq)

lemma mem_rowPattern_iff (h : r.OfMatrices A) (hp : p < r.sizes.rowSize i)
    (hq : q < r.sizes.colSize j) : position r.sizes.colSizes j q ∈
      r.assembled.rowPattern (position r.sizes.rowSizes i p) ↔ q ∈ (A i j).rowPattern p := by
  rw [← SparseMatrix.isSome_stored?_iff, ← SparseMatrix.isSome_stored?_iff, h.stored?_eq hp hq]

lemma rowSize_eq (hinner : rA.sizes.colSizes = rB.sizes.rowSizes) (k : Nat) :
    rA.sizes.colSize k = rB.sizes.rowSize k := by
  rw [BlockSizes.colSize, hinner]
  rfl

section Product
variable [CommRing α]

/-- Where the inner sizes agree, blocks can be multiplied. -/
lemma product_block (hA : rA.OfMatrices A) (hB : rB.OfMatrices B)
    (hinner : rA.sizes.colSizes = rB.sizes.rowSizes) (hi : i < rA.cells.numRows)
    (hj : j < rB.cells.numCols) {k : Nat} (hk : k < rA.cells.numCols) :
    (A i k).WellFormed ∧ (A i k).ncols = rA.sizes.colSize k ∧
      (A i k).product (B k j) = .ok ((A i k).times (B k j)) := by
  have hk' : k < rB.cells.numRows := by
    rwa [← hB.wellFormed.rows, ← hinner, hA.wellFormed.cols]
  obtain ⟨hwf, _, hcols⟩ := hA.fits hi hk
  obtain ⟨_, hrows, _⟩ := hB.fits hk' hj
  exact ⟨hwf, hcols,
    SparseMatrix.product_eq_times (by rw [hcols, hrows, rowSize_eq hinner])⟩

/-- A sum over all inner positions is the sum of what the products of the blocks give. -/
lemma sum_value_mul_value (hA : rA.OfMatrices A) (hB : rB.OfMatrices B)
    (hinner : rA.sizes.colSizes = rB.sizes.rowSizes) (hp : p < rA.sizes.rowSize i)
    (hq : q < rB.sizes.colSize j) :
    ∑ n ∈ range rA.assembled.ncols, rA.assembled.value (position rA.sizes.rowSizes i p) n *
      rB.assembled.value n (position rB.sizes.colSizes j q) =
    ∑ k ∈ range rA.cells.numCols, ((A i k).times (B k j)).value p q := by
  have hi : i < rA.cells.numRows := hA.wellFormed.rows ▸ lt_length_of_lt hp
  have hj : j < rB.cells.numCols := hB.wellFormed.cols ▸ lt_length_of_lt hq
  have hsplit := sum_range_sum rA.sizes.colSizes fun n =>
    rA.assembled.value (position rA.sizes.rowSizes i p) n *
      rB.assembled.value n (position rB.sizes.colSizes j q)
  refine hsplit.trans ?_
  rw [hA.wellFormed.cols]
  refine sum_congr rfl fun k hk => ?_
  obtain ⟨hwf, hcols, hproduct⟩ := hA.product_block hB hinner hi hj (mem_range.1 hk)
  rw [SparseMatrix.value_product hwf hproduct, hcols]
  refine sum_congr rfl fun t ht => ?_
  have ht' : t < rA.sizes.colSize k := mem_range.1 ht
  have hvalue := hB.value_eq (i := k) (rowSize_eq hinner k ▸ ht') hq
  rw [← hinner] at hvalue
  rw [hA.value_eq hp ht', hvalue]

/-- Both factors store something at an inner position exactly when two of the blocks do. -/
lemma exists_mem_rowPattern_iff (hA : rA.OfMatrices A) (hB : rB.OfMatrices B)
    (hinner : rA.sizes.colSizes = rB.sizes.rowSizes) (hp : p < rA.sizes.rowSize i)
    (hq : q < rB.sizes.colSize j) :
    (∃ n, n ∈ rA.assembled.rowPattern (position rA.sizes.rowSizes i p) ∧
      position rB.sizes.colSizes j q ∈ rB.assembled.rowPattern n) ↔
    ∃ k < rA.cells.numCols, q ∈ ((A i k).times (B k j)).rowPattern p := by
  have hi : i < rA.cells.numRows := hA.wellFormed.rows ▸ lt_length_of_lt hp
  have hj : j < rB.cells.numCols := hB.wellFormed.cols ▸ lt_length_of_lt hq
  have hinner' : ∀ k t, t < rA.sizes.colSize k →
      (position rB.sizes.colSizes j q ∈ rB.assembled.rowPattern (position rA.sizes.colSizes k t) ↔
        q ∈ (B k j).rowPattern t) := by
    intro k t ht
    rw [hinner]
    exact hB.mem_rowPattern_iff (rowSize_eq hinner k ▸ ht) hq
  constructor
  · rintro ⟨n, hn, hmem⟩
    have hlt : n < rA.sizes.colSizes.sum := ((wellFormed_assembled hA.wellFormed).row _).2 n hn
    obtain ⟨k, t, ht, rfl⟩ := exists_position hlt
    have hk : k < rA.cells.numCols := hA.wellFormed.cols ▸ lt_length_of_lt ht
    obtain ⟨_, _, hproduct⟩ := hA.product_block hB hinner hi hj hk
    refine ⟨k, hk, ?_⟩
    rw [← SparseMatrix.mem_positions_iff, SparseMatrix.positions_product hproduct]
    exact ⟨t, (hA.mem_rowPattern_iff hp ht).1 hn, (hinner' k t ht).1 hmem⟩
  · rintro ⟨k, hk, hmem⟩
    obtain ⟨hwf, hcols, hproduct⟩ := hA.product_block hB hinner hi hj hk
    rw [← SparseMatrix.mem_positions_iff, SparseMatrix.positions_product hproduct] at hmem
    obtain ⟨t, hleft, hright⟩ := hmem
    have ht : t < rA.sizes.colSize k := hcols ▸ (hwf.row p).2 t hleft
    exact ⟨position rA.sizes.colSizes k t, (hA.mem_rowPattern_iff hp ht).2 hleft,
      (hinner' k t ht).2 hright⟩

/-- If each cell of a grid is the sum of the products of the blocks of two others, then the matrix
assembled from it is the product of the matrices assembled from those. -/
theorem product_assembled (hA : rA.OfMatrices A) (hB : rB.OfMatrices B) (hC : rC.OfMatrices C)
    (hinner : rA.sizes.colSizes = rB.sizes.rowSizes)
    (hsizes : rC.sizes = ⟨rA.sizes.rowSizes, rB.sizes.colSizes⟩)
    (hsum : ∀ i < rC.cells.numRows, ∀ j < rC.cells.numCols,
      SparseMatrix.IsSum rA.cells.numCols (fun k => (A i k).times (B k j)) (C i j)) :
    rA.assembled.product rB.assembled = .ok rC.assembled := by
  obtain ⟨hrowsA, hcolsA⟩ := Shape.matrix.inj (shape_assembled hA.wellFormed)
  obtain ⟨hrowsB, hcolsB⟩ := Shape.matrix.inj (shape_assembled hB.wellFormed)
  have hncols : rA.assembled.ncols = rB.assembled.nrows := by
    rw [hcolsA, hrowsB, BlockSizes.totalCols, hinner]
    rfl
  obtain ⟨c, hc, hshape⟩ := SparseMatrix.product_outcome hncols
  have hwfC := wellFormed_assembled hC.wellFormed
  have hshapeC := shape_assembled hC.wellFormed
  rw [hc]
  refine congrArg _ (SparseMatrix.ext_places
    (SparseMatrix.wellFormed_product (wellFormed_assembled hB.wellFormed) hc) hwfC ?_ hshapeC ?_)
  · rw [hshape, hrowsA, hcolsB, hsizes]
    rfl
  · intro i j p q hp hq
    have hi : i < rC.cells.numRows := hC.wellFormed.rows ▸ lt_length_of_lt hp
    have hj : j < rC.cells.numCols := hC.wellFormed.cols ▸ lt_length_of_lt hq
    have hcell := hsum i hi j hj
    have hmemC := hC.mem_rowPattern_iff hp hq
    have hvalueC := hC.value_eq hp hq
    rw [hsizes] at hp hq hmemC hvalueC ⊢
    apply SparseMatrix.stored?_eq_of_value
    · rw [hmemC, hcell.stored, ← hA.exists_mem_rowPattern_iff hB hinner hp hq,
        ← SparseMatrix.mem_positions_iff, SparseMatrix.positions_product hc]
      rfl
    · rw [hvalueC, hcell.value, ← hA.sum_value_mul_value hB hinner hp hq]
      exact SparseMatrix.value_product (wellFormed_assembled hA.wellFormed) hc _ _

end Product

end OfMatrices

end ResolvedGrid

namespace BlockMatrix
variable {a b : BlockMatrix α} {e f : Expr α} {c : SparseMatrix α} {i j : Nat}

/-- The product of two grids: at each place the sum of the products of the cells along a row of the
first and a column of the second grid. -/
def product [Zero α] (a b : BlockMatrix α) : BlockMatrix α :=
  ⟨a.numRows, b.numCols, (a.rows.map fun row => (List.range b.numCols).map fun j =>
    Expr.leftSum (List.zipWith (fun e f => .product [e, f]) row (b.blockCol j))).flatten⟩

section Cells
variable [Zero α]

lemma length_of_mem_rows_product (a b : BlockMatrix α) :
    ∀ row ∈ a.rows.map fun row => (List.range b.numCols).map fun j =>
      Expr.leftSum (List.zipWith (fun e f => .product [e, f]) row (b.blockCol j)),
      row.length = b.numCols := by
  intro row hrow
  obtain ⟨_, _, rfl⟩ := List.mem_map.1 hrow
  rw [List.length_map, List.length_range]

lemma wellFormed_product (a b : BlockMatrix α) : (product a b).WellFormed := by
  refine (Grid.length_flatten_of_forall (length_of_mem_rows_product a b)).trans ?_
  rw [List.length_map, Grid.rows, List.length_map, List.length_range]
  rfl

lemma get?_product (hi : i < a.numRows) (hj : j < b.numCols) : (product a b).get? i j =
    some (Expr.leftSum
      (List.zipWith (fun e f => .product [e, f]) (a.blockRow i) (b.blockCol j))) := by
  have hget := Grid.get?_flatten (length_of_mem_rows_product a b) i j
  rw [List.length_map, Grid.rows, List.length_map, List.length_range] at hget
  refine hget.trans ?_
  simp [hi, hj]

end Cells

section Matrices
variable [Zero α] [One α] [Add α] [Mul α] [Neg α] [BEq α] {r : ResolvedGrid α}

/-- The matrix to which a cell of a grid evaluates. -/
def matrixAt (b : BlockMatrix α) (i j : Nat) : SparseMatrix α :=
  ((b.get? i j).bind fun e => e.eval.toOption.bind Value.matrix?).getD ⟨0, []⟩

lemma matrixAt_eq (he : b.get? i j = some e) (hc : e.eval = .ok (.matrix c)) :
    b.matrixAt i j = c := by
  rw [matrixAt, he, Option.bind_some, hc]
  rfl

/-- A grid of matrices is resolved to those matrices. -/
lemma ofMatrices_of_resolves (h : r.Resolves b) (hb : b.WellFormed)
    (hm : ∀ e ∈ b.cells, ∃ c, e.eval = .ok (.matrix c)) : r.OfMatrices b.matrixAt where
  wellFormed := h.wellFormed
  cells := by
    intro i hi j hj
    obtain ⟨cell, hcell⟩ := Grid.exists_get? h.wellFormed.cells hi hj
    obtain ⟨e, he⟩ := Grid.exists_get?_of_size_eq hb h.numRows.symm h.numCols.symm hcell
    obtain ⟨c, hc⟩ := hm e ((Grid.mem_cells_iff hb).2 ⟨i, j, he⟩)
    obtain ⟨v, hv, hstands⟩ := h.cells i j e cell he hcell
    cases hc.symm.trans hv
    cases hstands
    rw [hcell, matrixAt_eq he hc]

/-- A grid of matrices that fit together is resolved, unless it has rows without columns or columns
without rows. -/
lemma exists_resolves (sizes : BlockSizes) (hb : b.WellFormed)
    (hrows : sizes.rowSizes.length = b.numRows) (hcols : sizes.colSizes.length = b.numCols)
    (hpos : 0 < b.numRows ↔ 0 < b.numCols)
    (hm : ∀ i j e, b.get? i j = some e → ∃ c, e.eval = .ok (.matrix c) ∧ c.WellFormed ∧
      c.shape = .matrix (sizes.rowSize i) (sizes.colSize j)) :
    ∃ r : ResolvedGrid α, r.Resolves b ∧ r.sizes = sizes := by
  have hmatrix : ∀ i < b.numRows, ∀ j < b.numCols,
      (b.mapIdx fun i j _ => ResolvedBlock.matrix (b.matrixAt i j)).get? i j =
        some (.matrix (b.matrixAt i j)) := by
    intro i hi j hj
    obtain ⟨e, he⟩ := Grid.exists_get? hb hi hj
    rw [Grid.get?_mapIdx, he]
    rfl
  refine ⟨⟨sizes, b.mapIdx fun i j _ => .matrix (b.matrixAt i j)⟩,
    ⟨⟨Grid.wellFormed_mapIdx hb _, hrows, hcols, ?_⟩, ⟨?_, ?_⟩, rfl, rfl, ?_⟩, rfl⟩
  · intro i j cell hcell
    rw [Grid.get?_mapIdx, Option.map_eq_some_iff] at hcell
    obtain ⟨e, he, rfl⟩ := hcell
    obtain ⟨c, hc, hwf, hshape⟩ := hm i j e he
    rw [matrixAt_eq he hc]
    exact ⟨hwf, Shape.matrix.inj hshape⟩
  · intro i hi
    exact ⟨0, _, hmatrix i hi 0 (hpos.1 (Nat.zero_lt_of_lt hi))⟩
  · intro j hj
    exact ⟨0, _, hmatrix 0 (hpos.2 (Nat.zero_lt_of_lt hj)) j hj⟩
  · intro i j e cell he hcell
    obtain ⟨c, hc, _⟩ := hm i j e he
    rw [Grid.get?_mapIdx, he, Option.map_some, matrixAt_eq he hc] at hcell
    cases hcell
    exact ⟨_, hc, .matrix c⟩

end Matrices

section Product
variable [CommRing α] [BEq α] {rA rB : ResolvedGrid α}

omit [CommRing α] [BEq α] in
lemma pos_iff_of_determined {r : ResolvedGrid α} (h : r.Determined) :
    0 < r.cells.numRows ↔ 0 < r.cells.numCols := by
  constructor
  · intro hpos
    obtain ⟨j, _, hget⟩ := h.rows 0 hpos
    exact Nat.zero_lt_of_lt (Grid.get?_eq_some_iff.1 hget).2.1
  · intro hpos
    obtain ⟨i, _, hget⟩ := h.cols 0 hpos
    exact Nat.zero_lt_of_lt (Grid.get?_eq_some_iff.1 hget).1

/-- A cell of the product of two grids of matrices is the sum of the products of the blocks. -/
lemma eval_cell_product (ha : a.WellFormed) (hb : b.WellFormed) (hA : rA.Resolves a)
    (hB : rB.Resolves b) (hma : ∀ e ∈ a.cells, ∃ c, e.eval = .ok (.matrix c))
    (hmb : ∀ e ∈ b.cells, ∃ c, e.eval = .ok (.matrix c))
    (hinner : rA.sizes.colSizes = rB.sizes.rowSizes) (hi : i < a.numRows) (hj : j < b.numCols) :
    ∃ c, (Expr.leftSum (List.zipWith (fun e f => .product [e, f]) (a.blockRow i)
        (b.blockCol j))).eval = .ok (.matrix c) ∧
      c.shape = .matrix (rA.sizes.rowSize i) (rB.sizes.colSize j) ∧
      SparseMatrix.IsSum a.numCols (fun k => (a.matrixAt i k).times (b.matrixAt k j)) c := by
  have hmA := ofMatrices_of_resolves hA ha hma
  have hmB := ofMatrices_of_resolves hB hb hmb
  have hiA : i < rA.cells.numRows := hA.numRows ▸ hi
  have hjB : j < rB.cells.numCols := hB.numCols ▸ hj
  have hnum : b.numRows = a.numCols := by
    rw [← hB.numRows, ← hmB.wellFormed.rows, ← hinner, hmA.wellFormed.cols, hA.numCols]
  have hlen : (List.zipWith (fun e f => Expr.product [e, f]) (a.blockRow i)
      (b.blockCol j)).length = a.numCols := by
    rw [List.length_zipWith, Grid.length_blockRow ha hi, Grid.length_blockCol hb hj, hnum,
      Nat.min_self]
  have hpos : 0 < a.numCols := by
    have := (pos_iff_of_determined hA.determined).1 (Nat.zero_lt_of_lt hiA)
    rwa [hA.numCols] at this
  rw [← hlen]
  refine Expr.eval_leftSum (List.ne_nil_of_length_pos (hlen ▸ hpos)) fun k g hg => ?_
  obtain ⟨e, f, he, hf, rfl⟩ := List.getElem?_zipWith_eq_some.1 hg
  rw [Grid.getElem?_blockRow a hi] at he
  rw [Grid.getElem?_blockCol hb hj] at hf
  obtain ⟨x, hx⟩ := hma e ((Grid.mem_cells_iff ha).2 ⟨i, k, he⟩)
  obtain ⟨y, hy⟩ := hmb f ((Grid.mem_cells_iff hb).2 ⟨k, j, hf⟩)
  have hk : k < rA.cells.numCols := hA.numCols ▸ (Grid.get?_eq_some_iff.1 he).2.1
  have hk' : k < rB.cells.numRows := hB.numRows ▸ (Grid.get?_eq_some_iff.1 hf).1
  obtain ⟨_, _, hproduct⟩ := hmA.product_block hmB hinner hiA hjB hk
  obtain ⟨_, hrows, _⟩ := hmA.fits hiA hk
  obtain ⟨hwf, _, hcols⟩ := hmB.fits hk' hjB
  rw [← matrixAt_eq he hx] at hx
  rw [← matrixAt_eq hf hy] at hy
  refine ⟨Expr.eval_product_matrix hx hy hproduct, SparseMatrix.wellFormed_product hwf hproduct, ?_⟩
  rw [(SparseMatrix.shape_of_product hproduct).2, hrows, hcols]

/-- The product of two grids of matrices is resolved to the sums of the products of the blocks. -/
lemma exists_resolves_product (ha : a.WellFormed) (hb : b.WellFormed) (hA : rA.Resolves a)
    (hB : rB.Resolves b) (hma : ∀ e ∈ a.cells, ∃ c, e.eval = .ok (.matrix c))
    (hmb : ∀ e ∈ b.cells, ∃ c, e.eval = .ok (.matrix c))
    (hinner : rA.sizes.colSizes = rB.sizes.rowSizes) :
    ∃ rC : ResolvedGrid α, rC.Resolves (product a b) ∧
      rC.sizes = ⟨rA.sizes.rowSizes, rB.sizes.colSizes⟩ ∧
      rC.OfMatrices (product a b).matrixAt ∧
      ∀ i < rC.cells.numRows, ∀ j < rC.cells.numCols, SparseMatrix.IsSum rA.cells.numCols
        (fun k => (a.matrixAt i k).times (b.matrixAt k j)) ((product a b).matrixAt i j) := by
  have hC := wellFormed_product a b
  have hcell : ∀ i j e, (product a b).get? i j = some e → ∃ c, e.eval = .ok (.matrix c) ∧
      c.shape = .matrix (rA.sizes.rowSize i) (rB.sizes.colSize j) ∧
      SparseMatrix.IsSum a.numCols (fun k => (a.matrixAt i k).times (b.matrixAt k j)) c := by
    intro i j e he
    obtain ⟨hi, hj, _⟩ := Grid.get?_eq_some_iff.1 he
    cases he.symm.trans (get?_product hi hj)
    exact eval_cell_product ha hb hA hB hma hmb hinner hi hj
  have hnum : rA.cells.numCols = rB.cells.numRows := by
    rw [← hA.wellFormed.cols, hinner, hB.wellFormed.rows]
  have hpos : 0 < a.numRows ↔ 0 < b.numCols := by
    have hposA := pos_iff_of_determined hA.determined
    rwa [hnum, pos_iff_of_determined hB.determined, hA.numRows, hB.numCols] at hposA
  obtain ⟨rC, hrC, hsizes⟩ := exists_resolves ⟨rA.sizes.rowSizes, rB.sizes.colSizes⟩ hC
    (hA.wellFormed.rows.trans hA.numRows) (hB.wellFormed.cols.trans hB.numCols) hpos
    fun i j e he => by
      obtain ⟨c, hc, hshape, hsum⟩ := hcell i j e he
      exact ⟨c, hc, hsum.wellFormed, hshape⟩
  refine ⟨rC, hrC, hsizes, ofMatrices_of_resolves hrC hC fun e he => ?_, fun i hi j hj => ?_⟩
  · obtain ⟨i, j, hget⟩ := (Grid.mem_cells_iff hC).1 he
    obtain ⟨c, hc, _⟩ := hcell i j e hget
    exact ⟨c, hc⟩
  · have hget := get?_product (a := a) (b := b) (hrC.numRows ▸ hi) (hrC.numCols ▸ hj)
    obtain ⟨c, hc, _, hsum⟩ := hcell i j _ hget
    rw [matrixAt_eq hget hc, hA.numCols]
    exact hsum

/-- Multiplying two grids of matrices block by block and then assembling comes to the same matrix as
assembling both and then multiplying. -/
theorem assemble_product (ha : a.WellFormed) (hb : b.WellFormed)
    (hea : ∀ e ∈ a.cells, e.WellFormed) (heb : ∀ e ∈ b.cells, e.WellFormed)
    (hma : ∀ e ∈ a.cells, ∃ c, e.eval = .ok (.matrix c))
    (hmb : ∀ e ∈ b.cells, ∃ c, e.eval = .ok (.matrix c)) {x y : SparseMatrix α}
    (hx : a.assemble .concatenate = .ok (.value (.matrix x)))
    (hy : b.assemble .concatenate = .ok (.value (.matrix y))) {sizesA sizesB : BlockSizes}
    (hsa : a.sizes = .ok sizesA) (hsb : b.sizes = .ok sizesB)
    (hinner : sizesA.colSizes = sizesB.rowSizes) :
    ∃ c, (product a b).assemble .concatenate = .ok (.value (.matrix c)) ∧
      (product a b).assemble .streamRows = .ok (.value (.matrix c)) ∧
      (Expr.product [.matrix x, .matrix y]).eval = .ok (.matrix c) := by
  obtain ⟨rA, hrA⟩ := resolve_of_assemble hx
  obtain ⟨rB, hrB⟩ := resolve_of_assemble hy
  have hA := (resolve_eq_ok_iff_resolves ha hea).1 hrA
  have hB := (resolve_eq_ok_iff_resolves hb heb).1 hrB
  cases hsa.symm.trans (hA.sizes_eq ha)
  cases hsb.symm.trans (hB.sizes_eq hb)
  obtain ⟨hboundedA, hxA⟩ := (assemble_eq_ok_iff hrA hA.wellFormed Strategy.noConfusion).1 hx
  obtain ⟨hboundedB, hyB⟩ := (assemble_eq_ok_iff hrB hB.wellFormed Strategy.noConfusion).1 hy
  cases hxA
  cases hyB
  obtain ⟨rC, hC, hsizes, hmC, hsum⟩ := exists_resolves_product ha hb hA hB hma hmb hinner
  have hproduct := (ofMatrices_of_resolves hA ha hma).product_assembled
    (ofMatrices_of_resolves hB hb hmb) hmC hinner hsizes hsum
  have hrC := hC.resolve_eq (wellFormed_product a b)
  -- the product is as high as the first grid and as wide as the second
  have hboundedC : rC.sizes.Bounded := by
    rw [hsizes]
    exact ⟨hboundedA.1, hboundedB.2⟩
  exact ⟨rC.assembled,
    (assemble_eq_ok_iff hrC hC.wellFormed Strategy.noConfusion).2 ⟨hboundedC, rfl⟩,
    (assemble_eq_ok_iff hrC hC.wellFormed Strategy.noConfusion).2 ⟨hboundedC, rfl⟩,
    Expr.eval_product_matrix rfl rfl hproduct⟩

/-- Two blocks side by side. -/
def twoBeside : BlockMatrix Int :=
  ⟨1, 2, [.matrix ⟨2, [[(0, 1), (1, 2)]]⟩, .matrix ⟨1, [[(0, 1)]]⟩]⟩

/-- Blocks that cancel what they meet in `twoBeside`, or store a zero or nothing at all. -/
def fourBlocks : BlockMatrix Int := ⟨2, 2,
  [.transpose (.matrix ⟨2, [[(0, 1)], [(1, 0)]]⟩), .matrix ⟨1, [[], []]⟩,
    .matrix ⟨2, [[(0, -1)]]⟩, .matrix ⟨1, [[(0, 5)]]⟩]⟩

lemma matrix_cells_twoBeside :
    ∀ e ∈ twoBeside.cells, e.WellFormed ∧ ∃ c, e.eval = .ok (.matrix c) := by
  intro e he
  simp only [twoBeside, List.mem_cons, List.not_mem_nil, or_false] at he
  rcases he with rfl | rfl
  · exact ⟨.matrix (by decide), _, rfl⟩
  · exact ⟨.matrix (by decide), _, rfl⟩

lemma matrix_cells_fourBlocks :
    ∀ e ∈ fourBlocks.cells, e.WellFormed ∧ ∃ c, e.eval = .ok (.matrix c) := by
  intro e he
  simp only [fourBlocks, List.mem_cons, List.not_mem_nil, or_false] at he
  rcases he with rfl | rfl | rfl | rfl
  · exact ⟨.transpose (.matrix (by decide)), _, rfl⟩
  · exact ⟨.matrix (by decide), _, rfl⟩
  · exact ⟨.matrix (by decide), _, rfl⟩
  · exact ⟨.matrix (by decide), _, rfl⟩

theorem assemble_product_twoBeside : twoBeside.WellFormed ∧ fourBlocks.WellFormed ∧
    (∀ e ∈ twoBeside.cells, e.WellFormed) ∧ (∀ e ∈ fourBlocks.cells, e.WellFormed) ∧
    (∀ e ∈ twoBeside.cells, ∃ c, e.eval = .ok (.matrix c)) ∧
    (∀ e ∈ fourBlocks.cells, ∃ c, e.eval = .ok (.matrix c)) ∧
    twoBeside.assemble .concatenate =
      .ok (.value (.matrix ⟨3, [[(0, 1), (1, 2), (2, 1)]]⟩)) ∧
    fourBlocks.assemble .concatenate =
      .ok (.value (.matrix ⟨3, [[(0, 1)], [(1, 0)], [(0, -1), (2, 5)]]⟩)) ∧
    twoBeside.sizes = .ok ⟨[1], [2, 1]⟩ ∧ fourBlocks.sizes = .ok ⟨[2, 1], [2, 1]⟩ ∧
    (product twoBeside fourBlocks).assemble .concatenate =
      .ok (.value (.matrix ⟨3, [[(0, 0), (1, 0), (2, 5)]]⟩)) ∧
    (product twoBeside fourBlocks).assemble .streamRows =
      .ok (.value (.matrix ⟨3, [[(0, 0), (1, 0), (2, 5)]]⟩)) := by
  have ha : twoBeside.WellFormed := by decide
  have hb : fourBlocks.WellFormed := by decide
  have hea := fun e he => (matrix_cells_twoBeside e he).1
  have heb := fun e he => (matrix_cells_fourBlocks e he).1
  have hma := fun e he => (matrix_cells_twoBeside e he).2
  have hmb := fun e he => (matrix_cells_fourBlocks e he).2
  have hx : twoBeside.assemble .concatenate =
      .ok (.value (.matrix ⟨3, [[(0, 1), (1, 2), (2, 1)]]⟩)) := rfl
  have hy : fourBlocks.assemble .concatenate =
      .ok (.value (.matrix ⟨3, [[(0, 1)], [(1, 0)], [(0, -1), (2, 5)]]⟩)) := rfl
  obtain ⟨c, hconcatenate, hstream, hproduct⟩ :=
    assemble_product ha hb hea heb hma hmb hx hy rfl rfl rfl
  cases hproduct
  exact ⟨ha, hb, hea, heb, hma, hmb, hx, hy, rfl, rfl, hconcatenate, hstream⟩

end Product

end BlockMatrix
end BlockSparse
