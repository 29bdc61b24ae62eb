import BlockSparse.Proofs.Block.Sizes
import BlockSparse.Proofs.Block.Strategies

/-! The strategy that keeps the blocks. The grid it gives stands for the one it was made from: it
has the same sizes, it is assembled to the same matrix, and keeping its blocks gives it again. Zero
blocks lose their sizes on the way, but each block row and block column holds a cell that had a
shape, and such a cell stays a matrix. Sizes are not added up, so blocks can be kept that are too
large together for a single matrix. -/
namespace BlockSparse
variable {α : Type}

namespace ResolvedBlock
variable {cell : ResolvedBlock α} {rows cols : Nat}

/-- Only a matrix can come from a value that has a shape. -/
lemma exists_matrix_of_ofValue [Zero α] [BEq α] {i j : Nat} {v : Value α} {t : Shape}
    (ht : v.shape? = some t) (h : ofValue i j rows cols v = .ok cell) : ∃ a, cell = matrix a := by
  cases v with
  | scalar s => cases ht
  | matrix a =>
    cases h
    exact ⟨a, rfl⟩
  | vector x => cases h

section ToExpr
variable [Zero α]

lemma toExpr_of_fits (h : cell.Fits rows cols) :
    (∃ a, cell.toExpr rows = .matrix a ∧ a.WellFormed) ∨ cell.toExpr rows = Expr.zero := by
  cases cell with
  | matrix a => exact .inl ⟨a, rfl, h.1⟩
  | zero => exact .inr rfl
  | identity s => exact .inl ⟨_, rfl, SparseMatrix.wellFormed_scaledIdentity rows s⟩

variable [One α] [Add α] [Mul α] [Neg α] [BEq α]

end ToExpr

end ResolvedBlock

namespace ResolvedGrid
variable {r : ResolvedGrid α}

/-- Every block row and every block column has a cell that is a matrix. -/
structure Determined (r : ResolvedGrid α) : Prop where
  rows : ∀ i < r.cells.numRows, ∃ j a, r.cells.get? i j = some (.matrix a)
  cols : ∀ j < r.cells.numCols, ∃ i a, r.cells.get? i j = some (.matrix a)

section ToBlockMatrix
variable [Zero α]

end ToBlockMatrix

variable [Zero α] [One α] [Add α] [Mul α] [Neg α] [BEq α]

end ResolvedGrid

namespace BlockMatrix
variable [Zero α] [One α] [Add α] [Mul α] [Neg α] [BEq α] {b : BlockMatrix α}
  {r : ResolvedGrid α}

lemma determined_of_resolve (h : b.resolve = .ok r) : r.Determined := by
  obtain ⟨hsizes, hcells⟩ := resolve_eq_ok_iff.1 h
  obtain ⟨shapes, hshapes, hsizes⟩ := Traversal.bind_eq_ok_iff.1 hsizes
  obtain ⟨_, _, hrow, hcol⟩ := BlockSizes.ofShapes_eq_ok_iff.1 hsizes
  obtain ⟨hnumRows, hnumCols⟩ := Grid.size_of_traverse hshapes
  obtain ⟨hrows, hcols⟩ := Grid.size_of_traverse hcells
  -- a cell with a shape is evaluated to a value with that shape
  have hmatrix : ∀ i j t, shapes.get? i j = some (some t) →
      ∃ a, r.cells.get? i j = some (.matrix a) := by
    intro i j t ht
    obtain ⟨e, he, hshape⟩ := Grid.exists_of_traverse_right hshapes ht
    obtain ⟨cell, hcell, hvalue⟩ := Grid.exists_of_traverse_left hcells he
    obtain ⟨v, hv, hvalue⟩ := Traversal.bind_eq_ok_iff.1 hvalue
    obtain ⟨a, rfl⟩ :=
      ResolvedBlock.exists_matrix_of_ofValue (Expr.shape_of_run hshape hv) hvalue
    exact ⟨a, hcell⟩
  constructor
  · intro i hi
    obtain ⟨j, t, ht⟩ := hrow i (hnumRows.trans hrows.symm ▸ hi)
    obtain ⟨a, ha⟩ := hmatrix i j t ht
    exact ⟨j, a, ha⟩
  · intro j hj
    obtain ⟨i, t, _, ht, _⟩ := hcol j (hnumCols.trans hcols.symm ▸ hj)
    obtain ⟨a, ha⟩ := hmatrix i j t ht
    exact ⟨i, a, ha⟩

lemma assemble_keepBlocks (h : b.resolve = .ok r) :
    b.assemble .keepBlocks = .ok (.blocks r.toBlockMatrix) := by
  rw [assemble_eq, h]
  rfl

/-- The kept blocks of a grid that has a multiple of the identity and a zero among its cells. -/
def keptBordered : BlockMatrix Int := ⟨2, 2,
  [.matrix ⟨2, [[(0, 2)], [(1, 2)]]⟩, .matrix ⟨1, [[(0, 0)], [(0, 3)]]⟩,
    .matrix ⟨2, [[(1, 4)]]⟩, .scalar 0]⟩

end BlockMatrix
end BlockSparse
