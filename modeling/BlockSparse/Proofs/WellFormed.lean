import BlockSparse.Expr.Lumped
import BlockSparse.Proofs.Block.Cells
import BlockSparse.Proofs.Expr.Context
import BlockSparse.Proofs.Sparse.Compressed
import Mathlib.Algebra.Ring.Int.Defs

/-! Every matrix that comes out is well formed. The ways to obtain a matrix are listed once;
whichever of them succeeds, the arrays of the matrix satisfy all conditions of the compressed-row
form. -/
namespace BlockSparse
variable {α : Type} {a m : SparseMatrix α}

/-- The inverse of a lumped matrix stores its diagonal and nothing else. -/
lemma SparseMatrix.wellFormed_of_lumpedInverse [Zero α] [One α] [Add α] [Div α] [BEq α]
    (h : m.lumpedInverse = .ok a) : a.WellFormed := by
  obtain ⟨rows, hrows, h⟩ := Traversal.bind_eq_ok_iff.1 h
  cases h
  intro entries hentries
  obtain ⟨i, hi⟩ := List.mem_iff_getElem?.1 hentries
  have hstep := Traversal.getElem?_of_mapM_eq_ok hrows i
  rw [hi, List.getElem?_zipIdx, Option.map_some, Option.map_map, Option.map_eq_some_iff] at hstep
  obtain ⟨row, hrow, hstep⟩ := hstep
  have hlt : i < m.nrows := (List.getElem?_eq_some_iff.1 hrow).1
  by_cases hzero : SparseMatrix.rowSum row == 0
  · simp [hzero] at hstep
  · simp only [Function.comp_apply, Nat.zero_add, hzero, Bool.false_eq_true, if_false] at hstep
    cases hstep
    exact ⟨List.pairwise_singleton _ _, by simpa using hlt⟩

lemma BlockSizes.wellFormed_of_concatenate [Add α] {sizes : BlockSizes}
    {blocks : List (Option (SparseMatrix α))} (h : sizes.concatenate blocks = .ok a) :
    a.WellFormed := by
  by_cases hlen : blocks.length = sizes.rowSizes.length * sizes.colSizes.length
  · by_cases hb : sizes.Bounded
    · rw [concatenate_eq hlen hb] at h
      obtain ⟨placed, _, h⟩ := Traversal.bind_eq_ok_iff.1 h
      exact SparseMatrix.wellFormed_ofTriplets h
    · rw [concatenate_of_not_bounded hlen hb] at h
      cases h
  · rw [concatenate_of_length_ne hlen] at h
    obtain ⟨_, _, h⟩ := Traversal.bind_eq_ok_iff.1 h
    cases h

/-- The matrices in a result: the single value, or the cells that were kept apart. -/
def Assembled.matrices : Assembled α → List (SparseMatrix α)
  | value v => v.matrix?.toList
  | blocks g => g.cells.filterMap fun e => e.value?.bind Value.matrix?

lemma Value.mem_matrices_iff {v : Value α} : a ∈ (Assembled.value v).matrices ↔ v = .matrix a := by
  cases v <;> simp [Assembled.matrices, Value.matrix?, eq_comm]

variable [Zero α] [One α] [Add α] [Mul α] [Neg α] [BEq α]

namespace BlockMatrix
variable {b : BlockMatrix α} {strategy : Strategy} {result : Assembled α}

lemma wellFormed_of_assemble (hb : b.WellFormed) (he : ∀ e ∈ b.cells, e.WellFormed)
    (h : b.assemble strategy = .ok result) (ha : a ∈ result.matrices) : a.WellFormed := by
  obtain ⟨r, hr⟩ := resolve_of_assemble h
  have hwf := wellFormed_of_resolve hb he hr
  by_cases hs : strategy = .keepBlocks
  · subst hs
    rw [assemble_keepBlocks hr] at h
    cases h
    obtain ⟨e, hmem, hvalue⟩ := List.mem_filterMap.1 ha
    have hcells : (r.toBlockMatrix).WellFormed := Grid.wellFormed_mapIdx hwf.cells _
    obtain ⟨i, j, hget⟩ := (Grid.mem_cells_iff hcells).1 hmem
    rw [ResolvedGrid.toBlockMatrix, Grid.get?_mapIdx, Option.map_eq_some_iff] at hget
    obtain ⟨cell, hcell, rfl⟩ := hget
    obtain ⟨c, hc, hcwf⟩ | hzero := ResolvedBlock.toExpr_of_fits (hwf.fits i j cell hcell)
    · rw [hc] at hvalue
      cases hvalue
      exact hcwf
    · rw [hzero] at hvalue
      cases hvalue
  · obtain ⟨_, rfl⟩ := (assemble_eq_ok_iff hr hwf hs).1 h
    cases Value.mem_matrices_iff.1 ha
    exact ResolvedGrid.wellFormed_assembled hwf

end BlockMatrix

namespace Expr
variable {e : Expr α} {strategy : Strategy} {result : Assembled α}

lemma wellFormed_of_assemble (he : e.WellFormed) (h : e.assemble strategy = .ok result)
    (ha : a ∈ result.matrices) : a.WellFormed := by
  cases hblock : e.isBlock with
  | false =>
    rw [assemble_eq_eval hblock] at h
    obtain ⟨v, hv, rfl⟩ := Traversal.map_eq_ok_iff.1 h
    cases Value.mem_matrices_iff.1 ha
    exact wellFormed_of_eval he hv
  | true =>
    cases e with
    | blockMatrix grid =>
      obtain ⟨hg, hcells⟩ := wellFormed_blockMatrix_iff.1 he
      exact BlockMatrix.wellFormed_of_assemble hg hcells h ha
    | blockVector blocks =>
      rw [assemble_blockVector] at h
      obtain ⟨x, _, rfl⟩ := Traversal.map_eq_ok_iff.1 h
      cases Value.mem_matrices_iff.1 ha
    | _ => cases hblock

end Expr

variable [Div α]

/-- The matrices that can be obtained, by way of whatever makes matrices, from input whose matrices
are well formed. -/
inductive Obtained : SparseMatrix α → Prop
  | evaluated {e : Expr α} {a : SparseMatrix α} (he : e.WellFormed) (h : e.eval = .ok (.matrix a)) :
    Obtained a
  | converted {e : Expr α} {strategy : Strategy} {result : Assembled α} {a : SparseMatrix α}
    (he : e.WellFormed) (h : e.assemble strategy = .ok result) (ha : a ∈ result.matrices) :
    Obtained a
  | assembled {b : BlockMatrix α} {strategy : Strategy} {result : Assembled α} {a : SparseMatrix α}
    (hb : b.WellFormed) (he : ∀ e ∈ b.cells, e.WellFormed) (h : b.assemble strategy = .ok result)
    (ha : a ∈ result.matrices) : Obtained a
  | concatenated {sizes : BlockSizes} {blocks : List (Option (SparseMatrix α))} {a : SparseMatrix α}
    (h : sizes.concatenate blocks = .ok a) : Obtained a
  | built {nrows ncols : Nat} {calls : List (RowBuilder.Insertion α)} {a : SparseMatrix α}
    (h : ((RowBuilder.new nrows ncols).run calls).build = .ok a) : Obtained a
  | checked {c : Compressed α} {a : SparseMatrix α} (h : c.toMatrix = .ok a) : Obtained a
  | lumped {m a : SparseMatrix α} (h : m.lumpedInverse = .ok a) : Obtained a

/-- Whatever way a matrix is obtained, its offsets cut its arrays into rows of ascending columns. -/
theorem Obtained.wellFormed_compress (h : Obtained a) : a.compress.WellFormed := by
  rw [SparseMatrix.wellFormed_compress_iff]
  cases h with
  | evaluated he h => exact Expr.wellFormed_of_eval he h
  | converted he h ha => exact Expr.wellFormed_of_assemble he h ha
  | assembled hb he h ha => exact BlockMatrix.wellFormed_of_assemble hb he h ha
  | concatenated h => exact BlockSizes.wellFormed_of_concatenate h
  | built h => exact (RowBuilder.build_run_outcome _ h).1
  | checked h => exact (Compressed.toMatrix_eq_ok_iff_compress_eq.1 h).1
  | lumped h => exact SparseMatrix.wellFormed_of_lumpedInverse h

/-- Calls of which the second is rejected, since it goes back to a row before the first. -/
def goingBack : List (RowBuilder.Insertion Int) :=
  [⟨1, [0, 2], [5, 0]⟩, ⟨0, [1], [4]⟩, ⟨2, [1], [6]⟩]

theorem Obtained.wellFormed_compress_samples :
    (Obtained (SparseMatrix.mk 1 [[(0, (0 : Int))], [(0, 3)]]) ∧
      (SparseMatrix.mk 1 [[(0, (0 : Int))], [(0, 3)]]).compress.WellFormed) ∧
    (((RowBuilder.new 4 3).run goingBack).build = .ok ⟨3, [[], [(0, 5), (2, 0)], [(1, 6)], []]⟩ ∧
      (SparseMatrix.mk 3 [[], [(0, 5), (2, 0)], [(1, (6 : Int))], []]).compress.WellFormed) ∧
    ((SparseMatrix.mk 2 [[(0, 3), (1, (-2 : Int))], [(1, -1)]]).lumpedInverse =
        .ok ⟨2, [[(0, 1)], [(1, -1)]]⟩ ∧
      (SparseMatrix.mk 2 [[(0, (1 : Int))], [(1, -1)]]).compress.WellFormed) := by
  have hblocks : BlockMatrix.bordered.assemble .keepBlocks =
      .ok (.blocks BlockMatrix.keptBordered) := rfl
  have hkept : Obtained (SparseMatrix.mk 1 [[(0, (0 : Int))], [(0, 3)]]) :=
    .assembled (by decide) BlockMatrix.wellFormed_cells_bordered hblocks (.tail _ (.head _))
  have hbuilt : ((RowBuilder.new 4 3).run goingBack).build =
      .ok ⟨3, [[], [(0, 5), (2, 0)], [(1, 6)], []]⟩ := rfl
  have hlumped : (SparseMatrix.mk 2 [[(0, 3), (1, (-2 : Int))], [(1, -1)]]).lumpedInverse =
      .ok ⟨2, [[(0, 1)], [(1, -1)]]⟩ := rfl
  exact ⟨⟨hkept, wellFormed_compress hkept⟩, ⟨hbuilt, wellFormed_compress (.built hbuilt)⟩,
    hlumped, wellFormed_compress (.lumped hlumped)⟩

end BlockSparse
