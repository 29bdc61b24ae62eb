import BlockSparse.Proofs.Block.Cells
import BlockSparse.Proofs.Block.Entries
import BlockSparse.Proofs.Value.Transpose

/-! Transposition of block matrices. The transposed grid has the transposes of the cells at the
places turned round. It can be assembled exactly when the grid can, and comes to the transpose of
the matrix, whatever the strategy that makes a single matrix. -/
namespace BlockSparse
open Offsets
variable {α : Type}

namespace ResolvedBlock
variable {cell cell' : ResolvedBlock α} {rows cols : Nat}

/-- The transpose of a resolved cell; empty blocks and multiples of the identity stay as they are.
-/
def transpose : ResolvedBlock α → ResolvedBlock α
  | matrix a => matrix a.transpose
  | zero => zero
  | identity s => identity s

lemma fits_transpose (h : cell.Fits rows cols) : cell.transpose.Fits cols rows := by
  cases cell with
  | matrix a =>
    obtain ⟨_, hrows, hcols⟩ := h
    exact ⟨SparseMatrix.wellFormed_transpose a, (SparseMatrix.nrows_transpose a).trans hcols, hrows⟩
  | zero => trivial
  | identity s => exact h.symm

lemma stored?_transpose (h : cell.Fits rows cols) (p q : Nat) :
    cell.transpose.stored? cols q p = cell.stored? rows p q := by
  cases cell with
  | matrix a => exact SparseMatrix.stored?_transpose_of_wellFormed h.1 p q
  | zero => rfl
  | identity s =>
    have hsquare : rows = cols := h
    subst hsquare
    have hback := SparseMatrix.stored?_transpose_of_wellFormed
      (SparseMatrix.wellFormed_scaledIdentity rows s) p q
    rwa [SparseMatrix.transpose_scaledIdentity] at hback

lemma StandsFor.exists_transposed [Zero α] [BEq α] {v : Value α} (h : cell.StandsFor v) :
    ∃ w, v.Transposed w := by
  cases h with
  | matrix a => exact ⟨_, .matrix a⟩
  | zero hs => exact ⟨_, .scalar _⟩
  | identity hs => exact ⟨_, .scalar _⟩

lemma StandsFor.transpose [Zero α] [BEq α] {v w : Value α} (h : cell.StandsFor v)
    (hw : v.Transposed w) : cell.transpose.StandsFor w := by
  cases h with
  | matrix a =>
    cases hw
    exact .matrix a.transpose
  | zero hs =>
    cases hw
    exact .zero hs
  | identity hs =>
    cases hw
    exact .identity hs

end ResolvedBlock

namespace ResolvedGrid
variable {r : ResolvedGrid α}

/-- The transposed cells at the places turned round. -/
def transpose (r : ResolvedGrid α) : ResolvedGrid α :=
  ⟨⟨r.sizes.colSizes, r.sizes.rowSizes⟩, r.cells.transpose.map ResolvedBlock.transpose⟩

lemma get?_transpose (h : r.WellFormed) (i j : Nat) :
    r.transpose.cells.get? j i = (r.cells.get? i j).map ResolvedBlock.transpose := by
  rw [transpose, Grid.get?_map, Grid.get?_transpose h.cells]

lemma wellFormed_transpose (h : r.WellFormed) : r.transpose.WellFormed where
  cells := (List.length_map _).trans (Grid.wellFormed_transpose h.cells)
  rows := h.cols
  cols := h.rows
  fits := by
    intro j i cell hcell
    rw [get?_transpose h, Option.map_eq_some_iff] at hcell
    obtain ⟨cell', hcell', rfl⟩ := hcell
    exact ResolvedBlock.fits_transpose (h.fits i j cell' hcell')

lemma determined_transpose (h : r.WellFormed) (hr : r.Determined) : r.transpose.Determined where
  rows := by
    intro j hj
    obtain ⟨i, a, ha⟩ := hr.cols j hj
    exact ⟨i, a.transpose, by rw [get?_transpose h, ha]; rfl⟩
  cols := by
    intro i hi
    obtain ⟨j, a, ha⟩ := hr.rows i hi
    exact ⟨j, a.transpose, by rw [get?_transpose h, ha]; rfl⟩

/-- What is assembled from the transposed cells is the transpose of what is assembled from the
cells. -/
theorem assembled_transpose (h : r.WellFormed) :
    r.transpose.assembled = r.assembled.transpose := by
  have ht := wellFormed_transpose h
  have hshape : r.assembled.transpose.shape =
      .matrix r.transpose.sizes.totalRows r.transpose.sizes.totalCols := by
    obtain ⟨hrows, hcols⟩ := Shape.matrix.inj (shape_assembled h)
    rw [SparseMatrix.shape_transpose, hrows, hcols]
    rfl
  refine SparseMatrix.ext_places (wellFormed_assembled ht) (SparseMatrix.wellFormed_transpose _)
    (shape_assembled ht) hshape fun j i q p hq hp => ?_
  obtain ⟨cell, hcell⟩ := exists_cell h hp hq
  have hturned : r.transpose.cells.get? j i = some cell.transpose := by
    rw [get?_transpose h, hcell]
    rfl
  rw [stored?_assembled ht hturned hq hp,
    SparseMatrix.stored?_transpose_of_wellFormed (wellFormed_assembled h)]
  exact (ResolvedBlock.stored?_transpose (h.fits i j cell hcell) p q).trans
    (stored?_assembled h hcell hp hq).symm

end ResolvedGrid

namespace BlockMatrix
variable {b : BlockMatrix α}

/-- The transposes of the cells at the places turned round. -/
def transpose (b : BlockMatrix α) : BlockMatrix α := (Grid.transpose b).map Expr.transpose

lemma get?_transpose (hb : b.WellFormed) (i j : Nat) :
    b.transpose.get? j i = (b.get? i j).map Expr.transpose := by
  rw [transpose, Grid.get?_map, Grid.get?_transpose hb]

lemma wellFormed_transpose (hb : b.WellFormed) : b.transpose.WellFormed :=
  (List.length_map _).trans (Grid.wellFormed_transpose hb)

lemma wellFormed_cells_transpose (hb : b.WellFormed) (he : ∀ e ∈ b.cells, e.WellFormed) :
    ∀ e ∈ b.transpose.cells, e.WellFormed := by
  intro e hmem
  obtain ⟨j, i, hget⟩ := (Grid.mem_cells_iff (wellFormed_transpose hb)).1 hmem
  rw [get?_transpose hb, Option.map_eq_some_iff] at hget
  obtain ⟨e', he', rfl⟩ := hget
  exact .transpose (he e' ((Grid.mem_cells_iff hb).2 ⟨i, j, he'⟩))

variable [Zero α] [One α] [Add α] [Mul α] [Neg α] [BEq α] {r : ResolvedGrid α}

lemma resolves_transpose (hb : b.WellFormed) (h : r.Resolves b) :
    r.transpose.Resolves b.transpose where
  wellFormed := ResolvedGrid.wellFormed_transpose h.wellFormed
  determined := ResolvedGrid.determined_transpose h.wellFormed h.determined
  numRows := h.numCols
  numCols := h.numRows
  cells := by
    intro j i e cell he hcell
    rw [get?_transpose hb, Option.map_eq_some_iff] at he
    rw [ResolvedGrid.get?_transpose h.wellFormed, Option.map_eq_some_iff] at hcell
    obtain ⟨e', he', rfl⟩ := he
    obtain ⟨cell', hcell', rfl⟩ := hcell
    obtain ⟨v, hv, hstands⟩ := h.cells i j e' cell' he' hcell'
    obtain ⟨w, hw⟩ := hstands.exists_transposed
    refine ⟨w, Expr.eval_eq_ok_iff.2 ?_, hstands.transpose hw⟩
    rw [Expr.result_run_transpose, Expr.eval_eq_ok_iff.1 hv]
    exact Value.transpose_of_transposed hw

lemma resolves_of_transpose (hb : b.WellFormed) (he : ∀ e ∈ b.cells, e.WellFormed)
    (h : r.Resolves b.transpose) : r.transpose.Resolves b where
  wellFormed := ResolvedGrid.wellFormed_transpose h.wellFormed
  determined := ResolvedGrid.determined_transpose h.wellFormed h.determined
  numRows := h.numCols
  numCols := h.numRows
  cells := by
    intro i j e cell hget hcell
    rw [ResolvedGrid.get?_transpose h.wellFormed, Option.map_eq_some_iff] at hcell
    obtain ⟨cell', hcell', rfl⟩ := hcell
    have hturned : b.transpose.get? j i = some (.transpose e) := by
      rw [get?_transpose hb, hget]
      rfl
    obtain ⟨w, hw, hstands⟩ := h.cells j i _ cell' hturned hcell'
    obtain ⟨v, hv, hvw⟩ := Expr.exists_of_run_transpose (Expr.eval_eq_ok_iff.1 hw)
    have hwf := Expr.wellFormed_of_run (he e ((Grid.mem_cells_iff hb).2 ⟨i, j, hget⟩)) hv
    exact ⟨v, Expr.eval_eq_ok_iff.2 hv,
      hstands.transpose ((Value.transposed_of_transpose hvw).symm hwf)⟩

/-- A transposed grid is assembled to a single matrix exactly when the grid is. It comes to the
transpose of that matrix, and its block rows and block columns have the sizes turned round. -/
theorem assemble_transpose (hb : b.WellFormed) (he : ∀ e ∈ b.cells, e.WellFormed)
    {strategy : Strategy} (hs : strategy ≠ .keepBlocks) :
    ((∃ result, b.transpose.assemble strategy = .ok result) ↔
      ∃ result, b.assemble strategy = .ok result) ∧
    ∀ result, b.assemble strategy = .ok result → ∃ a sizes, result = .value (.matrix a) ∧
      b.transpose.assemble strategy = .ok (.value (.matrix a.transpose)) ∧
      b.sizes = .ok sizes ∧ b.transpose.sizes = .ok ⟨sizes.colSizes, sizes.rowSizes⟩ := by
  have hbt := wellFormed_transpose hb
  have het := wellFormed_cells_transpose hb he
  constructor
  · -- the sizes of the two grids are added up for the other direction each
    rw [exists_assemble_iff hbt het hs, exists_assemble_iff hb he hs]
    constructor
    · rintro ⟨r, hr, hbounded⟩
      exact ⟨r.transpose, resolves_of_transpose hb he hr, hbounded.symm⟩
    · rintro ⟨r, hr, hbounded⟩
      exact ⟨r.transpose, resolves_transpose hb hr, hbounded.symm⟩
  · intro result h
    obtain ⟨r, hr⟩ := resolve_of_assemble h
    have hresolves := (resolve_eq_ok_iff_resolves hb he).1 hr
    have hturned := resolves_transpose hb hresolves
    obtain ⟨hbounded, rfl⟩ := (assemble_eq_ok_iff hr hresolves.wellFormed hs).1 h
    have hmatrix := (assemble_eq_ok_iff (hturned.resolve_eq hbt) hturned.wellFormed hs).2
      ⟨hbounded.symm, rfl⟩
    rw [ResolvedGrid.assembled_transpose hresolves.wellFormed] at hmatrix
    exact ⟨r.assembled, r.sizes, rfl, hmatrix, hresolves.sizes_eq hb, hturned.sizes_eq hbt⟩

/-- Two block rows and three block columns, with scalars of all kinds and a stored zero. -/
def wide : BlockMatrix Int := ⟨2, 3,
  [.scalar 2, .matrix ⟨1, [[(0, 0)], [(0, 3)]]⟩, .scalar 0,
    .transpose (.matrix ⟨1, [[], [(0, 4)]]⟩), .scalar 5, .matrix ⟨3, [[(2, 7)]]⟩]⟩

lemma wellFormed_cells_wide : ∀ e ∈ wide.cells, e.WellFormed := by
  intro e he
  simp only [wide, List.mem_cons, List.not_mem_nil, or_false] at he
  rcases he with rfl | rfl | rfl | rfl | rfl | rfl
  · exact .scalar 2
  · exact .matrix (by decide)
  · exact .scalar 0
  · exact .transpose (.matrix (by decide))
  · exact .scalar 5
  · exact .matrix (by decide)

theorem assemble_transpose_wide : wide.WellFormed ∧ (∀ e ∈ wide.cells, e.WellFormed) ∧
    Strategy.streamRows ≠ .keepBlocks ∧
    wide.assemble .streamRows = .ok (.value (.matrix
      ⟨6, [[(0, 2), (2, 0)], [(1, 2), (2, 3)], [(1, 4), (2, 5), (5, 7)]]⟩)) ∧
    wide.transpose.assemble .streamRows = .ok (.value (.matrix
      ⟨3, [[(0, 2)], [(1, 2), (2, 4)], [(0, 0), (1, 3), (2, 5)], [], [], [(2, 7)]]⟩)) ∧
    wide.sizes = .ok ⟨[2, 1], [2, 1, 3]⟩ ∧ wide.transpose.sizes = .ok ⟨[2, 1, 3], [2, 1]⟩ := by
  have hwide : wide.WellFormed := by decide
  have hs : Strategy.streamRows ≠ .keepBlocks := by decide
  have hmatrix : wide.assemble .streamRows = .ok (.value (.matrix
      ⟨6, [[(0, 2), (2, 0)], [(1, 2), (2, 3)], [(1, 4), (2, 5), (5, 7)]]⟩)) := rfl
  have hsizes : wide.sizes = .ok ⟨[2, 1], [2, 1, 3]⟩ := rfl
  obtain ⟨a, sizes, ha, hturned, hsizes', hswapped⟩ :=
    (assemble_transpose hwide wellFormed_cells_wide hs).2 _ hmatrix
  cases ha
  cases hsizes.symm.trans hsizes'
  exact ⟨hwide, wellFormed_cells_wide, hs, hmatrix, hturned, hsizes, hswapped⟩

end BlockMatrix
end BlockSparse
