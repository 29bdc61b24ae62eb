import BlockSparse.Expr.Assemble
import BlockSparse.Proofs.Block.Concatenate
import BlockSparse.Proofs.Block.Resolve
import BlockSparse.Proofs.Sparse.RowBuilder
import BlockSparse.Proofs.Sparse.Values

/-! The two strategies that assemble a single matrix. From a resolved grid whose sizes can be added
up both succeed, and they give the same matrix: the rows that concatenation sorts into place are
those that are streamed. If the sizes cannot be added up, both stop. -/
namespace BlockSparse
open Offsets
variable {α : Type}

namespace ResolvedBlock
variable {cell : ResolvedBlock α} {sizes : BlockSizes} {i j r : Nat}

/-- A cell that fits is as large as its place once it is written as a matrix. -/
lemma fits_matrix? (h : cell.Fits (sizes.rowSize i) (sizes.colSize j)) :
    sizes.Fits i j (cell.matrix? (sizes.rowSize i)) := by
  intro a ha
  cases cell with
  | matrix a' =>
    cases ha
    exact h
  | zero => cases ha
  | identity s =>
    cases ha
    obtain ⟨hrows, hcols⟩ := Shape.matrix.inj
      (SparseMatrix.shape_scaledIdentity (sizes.rowSize i) s)
    exact ⟨SparseMatrix.wellFormed_scaledIdentity _ s, hrows, hcols.trans h⟩

/-- A streamed row of a cell is the row of its matrix, moved to its columns. -/
lemma rowEntries_eq (cell : ResolvedBlock α) (hj : j ≤ sizes.colSizes.length) {rows : Nat}
    (hr : r < rows) : cell.rowEntries r (sizes.colOffsets[j]?.getD 0) =
      sizes.segment r j (cell.matrix? rows) := by
  cases cell with
  | matrix a => simp only [rowEntries, matrix?, BlockSizes.segment, BlockSizes.getD_colOffsets hj]
  | zero => rfl
  | identity s =>
    rw [rowEntries, BlockSizes.getD_colOffsets hj, matrix?, BlockSizes.segment,
      SparseMatrix.row_scaledIdentity s hr]
    rfl

end ResolvedBlock

namespace ResolvedGrid
variable {r : ResolvedGrid α}

/-- The cells as optional matrices, row after row. -/
def blocks (r : ResolvedGrid α) : List (Option (SparseMatrix α)) :=
  (r.cells.mapIdx fun i _ cell => cell.matrix? (r.sizes.rowSize i)).cells

lemma grid_blocks (h : r.WellFormed) :
    r.sizes.grid r.blocks = r.cells.mapIdx fun i _ cell => cell.matrix? (r.sizes.rowSize i) := by
  rw [BlockSizes.grid, h.rows, h.cols]
  rfl

lemma allFit_blocks (h : r.WellFormed) : r.sizes.AllFit r.blocks := by
  constructor
  · rw [grid_blocks h]
    exact Grid.wellFormed_mapIdx h.cells _
  · intro i j block hblock
    rw [grid_blocks h, Grid.get?_mapIdx, Option.map_eq_some_iff] at hblock
    obtain ⟨cell, hcell, rfl⟩ := hblock
    exact ResolvedBlock.fits_matrix? (h.fits i j cell hcell)

lemma zip_eq_map_zipIdx {β γ : Type} {xs : List β} {ys : List γ} (h : xs.length ≤ ys.length)
    (d : γ) : xs.zip ys = xs.zipIdx.map fun p => (p.1, ys[p.2]?.getD d) := by
  apply List.ext_getElem
  · simp [h]
  · intro k hk _
    have hky : k < ys.length := by
      rw [List.length_zip] at hk
      omega
    simp [hky]

/-- A streamed row of the grid is the row of blocks that stand side by side. -/
lemma streamedRow_eq (h : r.WellFormed) {i row : Nat} (hrow : row < r.sizes.rowSize i) :
    streamedRow r.sizes.colOffsets (r.cells.blockRow i) row =
      r.sizes.placedRow row ((r.sizes.grid r.blocks).blockRow i) := by
  have hi : i < r.cells.numRows := h.rows ▸ lt_length_of_lt hrow
  have hlen : (r.cells.blockRow i).length = r.sizes.colSizes.length :=
    (Grid.length_blockRow h.cells hi).trans h.cols.symm
  have hoffsets : (r.cells.blockRow i).length ≤ r.sizes.colOffsets.length := by
    rw [BlockSizes.colOffsets, length_cumulative]
    omega
  rw [streamedRow, zip_eq_map_zipIdx hoffsets 0, List.flatMap_map, grid_blocks h,
    Grid.blockRow_mapIdx _ hi, BlockSizes.placedRow, List.zipIdx_map, List.flatMap_map]
  apply List.flatMap_congr
  rintro ⟨cell, j⟩ hp
  have hj : j ≤ r.sizes.colSizes.length := by
    have := (List.mem_zipIdx hp).2.1
    omega
  exact ResolvedBlock.rowEntries_eq cell hj hrow

lemma zip_rows (h : r.WellFormed) : r.cells.rows.zip r.sizes.rowSizes =
    r.sizes.rowSizes.zipIdx.map fun p => (r.cells.blockRow p.2, p.1) := by
  apply List.ext_getElem
  · simp [Grid.rows, h.rows]
  · intro k hk _
    simp [Grid.rows]

/-- The streamed rows are the rows into which concatenation puts the entries of the blocks. -/
lemma streamedRows_eq (h : r.WellFormed) : r.streamedRows r.sizes.colOffsets =
    (SparseMatrix.ofRowsAmong r.sizes.totalRows r.sizes.totalCols
      (r.sizes.placedAll r.blocks)).rows := by
  rw [BlockSizes.rows_of_allFit (allFit_blocks h), streamedRows, zip_rows h, List.flatMap_map]
  apply List.flatMap_congr
  rintro ⟨n, i⟩ hn
  rw [List.mem_zipIdx_iff_getElem?] at hn
  apply List.map_congr_left
  intro row hrow
  apply streamedRow_eq h
  rw [BlockSizes.rowSize, hn]
  exact List.mem_range.1 hrow

/-- The matrix to which a resolved grid is assembled. -/
def assembled (r : ResolvedGrid α) : SparseMatrix α :=
  ⟨r.sizes.totalCols, r.streamedRows r.sizes.colOffsets⟩

lemma assembled_eq (h : r.WellFormed) : r.assembled =
    SparseMatrix.ofRowsAmong r.sizes.totalRows r.sizes.totalCols (r.sizes.placedAll r.blocks) := by
  rw [assembled, streamedRows_eq h]
  rfl

lemma shape_assembled (h : r.WellFormed) :
    r.assembled.shape = .matrix r.sizes.totalRows r.sizes.totalCols := by
  rw [assembled_eq h]
  exact SparseMatrix.shape_ofRowsAmong ..

lemma wellFormed_assembled (h : r.WellFormed) : r.assembled.WellFormed := by
  rw [assembled_eq h]
  exact SparseMatrix.wellFormed_ofRowsAmong
    (fun t ht => (BlockSizes.lt_of_mem_placedAll (allFit_blocks h) ht).2)
    (BlockSizes.ascending_rowAmong_placedAll (allFit_blocks h))

/-- The single matrix that a resolved grid comes to, if its sizes can be added up. -/
def single (r : ResolvedGrid α) : Except Error (SparseMatrix α) :=
  if r.sizes.Bounded then .ok r.assembled else .error (.sizeOverflow .add)

lemma single_of_bounded (hb : r.sizes.Bounded) : r.single = .ok r.assembled := if_pos hb

lemma single_of_not_bounded (hb : ¬ r.sizes.Bounded) : r.single = .error (.sizeOverflow .add) :=
  if_neg hb

lemma single_eq_ok_iff {a : SparseMatrix α} :
    r.single = .ok a ↔ r.sizes.Bounded ∧ a = r.assembled := by
  by_cases hb : r.sizes.Bounded
  · rw [single_of_bounded hb]
    simp [hb, eq_comm]
  · rw [single_of_not_bounded hb]
    simp [hb]

/-- The builder accepts every streamed row, and the finished matrix is well formed. -/
theorem streamRows_eq (h : r.WellFormed) : r.streamRows = r.single := by
  rw [streamRows]
  by_cases hcols : r.sizes.totalCols < Size.bound
  · by_cases hrows : r.sizes.totalRows < Size.bound
    · rw [Size.boundaries_of_lt hcols, Size.sum_of_lt hrows, Size.sum_of_lt hcols,
        single_of_bounded ⟨hrows, hcols⟩]
      have hbuild := RowBuilder.foldlM_insert_build r.sizes.totalCols r.assembled.rows
      rw [show r.assembled.rows.length = r.sizes.totalRows from
        (Shape.matrix.inj (shape_assembled h)).1] at hbuild
      exact hbuild.trans (SparseMatrix.ofRows_eq_ok_iff.2 ⟨rfl, wellFormed_assembled h⟩)
    · rw [Size.boundaries_of_lt hcols, Size.sum_of_le (Nat.le_of_not_lt hrows),
        single_of_not_bounded fun hb => hrows hb.1]
      rfl
  · rw [Size.boundaries_of_le (Nat.le_of_not_lt hcols),
      single_of_not_bounded fun hb => hcols hb.2]
    rfl

theorem concatenate_eq [Add α] (h : r.WellFormed) : r.concatenate = r.single := by
  by_cases hb : r.sizes.Bounded
  · rw [single_of_bounded hb, assembled_eq h]
    exact BlockSizes.concatenate_of_allFit (allFit_blocks h) hb
  · rw [single_of_not_bounded hb]
    exact BlockSizes.concatenate_of_not_bounded (allFit_blocks h).1 hb

/-- Every strategy but keeping the blocks comes to the same single matrix. -/
lemma matrixBy?_eq [Add α] (h : r.WellFormed) {strategy : Strategy} (hs : strategy ≠ .keepBlocks) :
    r.matrixBy? strategy = some r.single := by
  cases strategy with
  | concatenate => exact congrArg some (concatenate_eq h)
  | streamRows => exact congrArg some (streamRows_eq h)
  | keepBlocks => exact absurd rfl hs

end ResolvedGrid

namespace BlockMatrix
variable [Zero α] [One α] [Add α] [Mul α] [Neg α] [BEq α]

lemma assemble_of_resolve_error {b : BlockMatrix α} {err : Error} (h : b.resolve = .error err)
    (strategy : Strategy) : b.assemble strategy = .error err := by
  rw [assemble_eq, h]
  rfl

lemma assemble_eq_single {b : BlockMatrix α} {r : ResolvedGrid α} (h : b.resolve = .ok r)
    (hr : r.WellFormed) {strategy : Strategy} (hs : strategy ≠ .keepBlocks) :
    b.assemble strategy = (fun a => Assembled.value (.matrix a)) <$> r.single := by
  rw [assemble_eq, h]
  refine (pure_bind r _).trans ?_
  rw [ResolvedGrid.matrixBy?_eq hr hs]

lemma assemble_eq_ok_iff {b : BlockMatrix α} {r : ResolvedGrid α} (h : b.resolve = .ok r)
    (hr : r.WellFormed) {strategy : Strategy} (hs : strategy ≠ .keepBlocks)
    {result : Assembled α} : b.assemble strategy = .ok result ↔
      r.sizes.Bounded ∧ result = .value (.matrix r.assembled) := by
  rw [assemble_eq_single h hr hs, Traversal.map_eq_ok_iff]
  constructor
  · rintro ⟨a, ha, rfl⟩
    obtain ⟨hb, rfl⟩ := ResolvedGrid.single_eq_ok_iff.1 ha
    exact ⟨hb, rfl⟩
  · rintro ⟨hb, rfl⟩
    exact ⟨_, ResolvedGrid.single_of_bounded hb, rfl⟩

/-- Concatenating the blocks and streaming their rows come to the same: where resolution fails, both
fail with its error. Where it succeeds, both succeed with one and the same matrix if the row sizes
and the column sizes can be added up, and both stop if they cannot. -/
theorem strategies_agree {b : BlockMatrix α} (hb : b.WellFormed)
    (he : ∀ e ∈ b.cells, e.WellFormed) :
    (∀ err, b.resolve = .error err →
      b.assemble .concatenate = .error err ∧ b.assemble .streamRows = .error err) ∧
    (∀ r, b.resolve = .ok r → r.sizes.Bounded → ∃ a, r.concatenate = .ok a ∧ r.streamRows = .ok a ∧
      b.assemble .concatenate = .ok (.value (.matrix a)) ∧
      b.assemble .streamRows = .ok (.value (.matrix a))) ∧
    ∀ r, b.resolve = .ok r → ¬ r.sizes.Bounded →
      r.concatenate = .error (.sizeOverflow .add) ∧ r.streamRows = .error (.sizeOverflow .add) ∧
      b.assemble .concatenate = .error (.sizeOverflow .add) ∧
      b.assemble .streamRows = .error (.sizeOverflow .add) := by
  refine ⟨fun err h => ⟨assemble_of_resolve_error h _, assemble_of_resolve_error h _⟩,
    fun r h hbounded => ⟨r.assembled, ?_⟩, fun r h hover => ?_⟩
  · have hr := wellFormed_of_resolve hb he h
    rw [ResolvedGrid.concatenate_eq hr, ResolvedGrid.streamRows_eq hr,
      assemble_eq_single h hr Strategy.noConfusion, assemble_eq_single h hr Strategy.noConfusion,
      ResolvedGrid.single_of_bounded hbounded]
    exact ⟨rfl, rfl, rfl, rfl⟩
  · have hr := wellFormed_of_resolve hb he h
    rw [ResolvedGrid.concatenate_eq hr, ResolvedGrid.streamRows_eq hr,
      assemble_eq_single h hr Strategy.noConfusion, assemble_eq_single h hr Strategy.noConfusion,
      ResolvedGrid.single_of_not_bounded hover]
    exact ⟨rfl, rfl, rfl, rfl⟩

/-- A multiple of the identity, bordered by a column that stores a zero and by a row. -/
def bordered : BlockMatrix Int := ⟨2, 2,
  [.scalar 2, .matrix ⟨1, [[(0, 0)], [(0, 3)]]⟩,
    .transpose (.matrix ⟨1, [[], [(0, 4)]]⟩), .scalar 0]⟩

lemma wellFormed_cells_bordered : ∀ e ∈ bordered.cells, e.WellFormed := by
  intro e he
  simp only [bordered, List.mem_cons, List.not_mem_nil, or_false] at he
  rcases he with rfl | rfl | rfl | rfl
  · exact .scalar 2
  · exact .matrix (by decide)
  · exact .transpose (.matrix (by decide))
  · exact .scalar 0

theorem strategies_agree_bordered : bordered.WellFormed ∧ (∀ e ∈ bordered.cells, e.WellFormed) ∧
    ∃ r a, bordered.resolve = .ok r ∧ r.sizes.Bounded ∧ r.concatenate = .ok a ∧
      r.streamRows = .ok a ∧ bordered.assemble .concatenate = .ok (.value (.matrix a)) ∧
      bordered.assemble .streamRows = .ok (.value (.matrix a)) := by
  have hb : bordered.WellFormed := by decide
  have hr : bordered.resolve = .ok ⟨⟨[2, 1], [2, 1]⟩, ⟨2, 2,
      [.identity 2, .matrix ⟨1, [[(0, 0)], [(0, 3)]]⟩, .matrix ⟨2, [[(1, 4)]]⟩, .zero]⟩⟩ := rfl
  have hbounded : BlockSizes.Bounded ⟨[2, 1], [2, 1]⟩ := by decide
  obtain ⟨a, ha⟩ := (strategies_agree hb wellFormed_cells_bordered).2.1 _ hr hbounded
  exact ⟨hb, wellFormed_cells_bordered, _, a, hr, hbounded, ha⟩

/-- Two blocks side by side whose widths add up to more than a size can hold. -/
def overWide : BlockMatrix Int :=
  ⟨1, 2, [.matrix ⟨18446744073709551615, [[]]⟩, .matrix ⟨1, [[(0, 7)]]⟩]⟩

lemma wellFormed_cells_overWide : ∀ e ∈ overWide.cells, e.WellFormed := by
  intro e he
  simp only [overWide, List.mem_cons, List.not_mem_nil, or_false] at he
  rcases he with rfl | rfl
  · exact .matrix (by decide)
  · exact .matrix (by decide)

lemma resolve_overWide : overWide.resolve = .ok ⟨⟨[1], [18446744073709551615, 1]⟩, ⟨1, 2,
    [.matrix ⟨18446744073709551615, [[]]⟩, .matrix ⟨1, [[(0, 7)]]⟩]⟩⟩ := rfl

/-- The grid is resolved, but neither strategy makes a matrix of it. -/
theorem strategies_overWide : overWide.WellFormed ∧ (∀ e ∈ overWide.cells, e.WellFormed) ∧
    ∃ r, overWide.resolve = .ok r ∧ r.concatenate = .error (.sizeOverflow .add) ∧
      r.streamRows = .error (.sizeOverflow .add) := by
  have hb : overWide.WellFormed := by decide
  have hr := wellFormed_of_resolve hb wellFormed_cells_overWide resolve_overWide
  have hover : ¬ BlockSizes.Bounded ⟨[1], [18446744073709551615, 1]⟩ := by decide
  refine ⟨hb, wellFormed_cells_overWide, _, resolve_overWide, ?_⟩
  rw [ResolvedGrid.concatenate_eq hr, ResolvedGrid.streamRows_eq hr,
    ResolvedGrid.single_of_not_bounded hover]
  exact ⟨rfl, rfl⟩

end BlockMatrix
end BlockSparse
