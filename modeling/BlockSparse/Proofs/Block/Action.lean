import BlockSparse.Proofs.Block.Cells
import BlockSparse.Proofs.Block.Entries
import BlockSparse.Proofs.Expr.Context

/-! How an assembled matrix acts on a vector. Where the vector consists of one component for each
block column, the product consists of one piece for each block row, and that is the sum of what the
blocks of the row make of the components. -/
namespace BlockSparse
open Offsets Finset
variable {α : Type}

section Action
variable [CommRing α]

/-- An entry of what a block makes of a vector. -/
def ResolvedBlock.apply (x : DenseVector α) (p : Nat) : ResolvedBlock α → α
  | matrix a => ∑ q ∈ range a.ncols, a.value p q * x[q]?.getD 0
  | zero => 0
  | identity s => s * x[p]?.getD 0

lemma ResolvedBlock.sum_value_mul {cell : ResolvedBlock α} {rows cols p : Nat}
    (h : cell.Fits rows cols) (hp : p < rows) (x : DenseVector α) :
    ∑ q ∈ range cols, cell.value p q * x[q]?.getD 0 = cell.apply x p := by
  cases cell with
  | matrix a =>
    obtain ⟨_, _, rfl⟩ := h
    rfl
  | zero => exact sum_eq_zero fun q _ => zero_mul _
  | identity s =>
    have hsquare : rows = cols := h
    simp [value, apply, ite_mul, ← hsquare, hp]

namespace ResolvedGrid
variable {r : ResolvedGrid α} {xs : List (DenseVector α)} {i p : Nat}

/-- An entry of the sum of what the blocks of a block row make of the components of a vector. -/
def rowAction (r : ResolvedGrid α) (xs : List (DenseVector α)) (i p : Nat) : α :=
  ∑ j ∈ range r.cells.numCols, ((r.cells.get? i j).getD .zero).apply (xs[j]?.getD []) p

/-- What a grid of blocks makes of a vector with one component for each block column. -/
def action (r : ResolvedGrid α) (xs : List (DenseVector α)) : List (DenseVector α) :=
  (List.range r.cells.numRows).map fun i =>
    (List.range (r.sizes.rowSize i)).map (r.rowAction xs i)

lemma rowAction_eq (h : r.WellFormed) (hx : xs.map List.length = r.sizes.colSizes)
    (hp : p < r.sizes.rowSize i) :
    ∑ n ∈ range r.assembled.ncols,
      r.assembled.value (position r.sizes.rowSizes i p) n * xs.flatten[n]?.getD 0 =
        r.rowAction xs i p := by
  have hsplit := sum_range_sum r.sizes.colSizes fun n =>
    r.assembled.value (position r.sizes.rowSizes i p) n * xs.flatten[n]?.getD 0
  refine hsplit.trans ?_
  rw [h.cols, rowAction]
  refine sum_congr rfl fun j hj => ?_
  have hj' : j < r.cells.numCols := mem_range.1 hj
  obtain ⟨cell, hcell⟩ := Grid.exists_get? h.cells (h.rows ▸ lt_length_of_lt hp) hj'
  have hxj : j < xs.length := by
    rw [← List.length_map List.length, hx, h.cols]
    exact hj'
  rw [hcell, Option.getD_some, ← ResolvedBlock.sum_value_mul (h.fits i j cell hcell) hp]
  refine sum_congr rfl fun q hq => ?_
  have hq' : q < r.sizes.colSize j := mem_range.1 hq
  have hentry : xs.flatten[position r.sizes.colSizes j q]? = xs[j]?.bind (·[q]?) := by
    rw [← hx]
    exact getElem?_flatten_position xs (hx ▸ hq')
  rw [value_assembled h hcell hp hq', hentry, List.getElem?_eq_getElem hxj]
  rfl

lemma getElem?_mulVec_assembled (h : r.WellFormed) (hx : xs.map List.length = r.sizes.colSizes)
    {y : DenseVector α} (hy : r.assembled.mulVec xs.flatten = .ok y) (hp : p < r.sizes.rowSize i) :
    y[position r.sizes.rowSizes i p]? = some (r.rowAction xs i p) := by
  have hlt : position r.sizes.rowSizes i p < r.assembled.nrows := by
    rw [(Shape.matrix.inj (shape_assembled h)).1]
    exact position_lt_sum hp
  rw [SparseMatrix.getElem?_mulVec (wellFormed_assembled h) hy hlt, rowAction_eq h hx hp]

/-- The pieces of a product with the assembled matrix are what the blocks make of the components. -/
theorem slices_mulVec_assembled (h : r.WellFormed) (hx : xs.map List.length = r.sizes.colSizes)
    {y : DenseVector α} (hy : r.assembled.mulVec xs.flatten = .ok y) :
    slices y r.sizes.rowOffsets = r.action xs := by
  rw [action, ← h.rows]
  exact slices_cumulative_eq fun i p hp => getElem?_mulVec_assembled h hx hy hp

end ResolvedGrid

namespace BlockMatrix
variable [BEq α] {b : BlockMatrix α} {r : ResolvedGrid α} {x : BlockVector α}
  {xs : List (DenseVector α)}

/-- Both ways to assemble a resolved grid give one matrix, if its sizes can be added up, and
whatever matrix one of them gives acts block by block: its product with the components of a block
vector, laid out one behind the other, consists of the sums of what the blocks make of the
components. -/
theorem mulVec_assemble (hb : b.WellFormed) (he : ∀ e ∈ b.cells, e.WellFormed)
    (hr : b.resolve = .ok r) (hx : List.Forall₂ (fun e y => e.eval = .ok (.vector y)) x xs)
    (hlen : xs.map List.length = r.sizes.colSizes) :
    (r.sizes.Bounded → ∃ a, r.concatenate = .ok a ∧ r.streamRows = .ok a) ∧
    ∀ a, r.concatenate = .ok a ∨ r.streamRows = .ok a → ∃ y,
      BlockVector.flatten x = .ok xs.flatten ∧ a.mulVec xs.flatten = .ok y ∧
      y.length = r.sizes.totalRows ∧ slices y r.sizes.rowOffsets = r.action xs := by
  have h := wellFormed_of_resolve hb he hr
  rw [ResolvedGrid.concatenate_eq h, ResolvedGrid.streamRows_eq h]
  refine ⟨fun hbounded => ⟨r.assembled, ResolvedGrid.single_of_bounded hbounded,
    ResolvedGrid.single_of_bounded hbounded⟩, fun a ha => ?_⟩
  obtain ⟨_, rfl⟩ := ResolvedGrid.single_eq_ok_iff.1 (or_self_iff.1 ha)
  obtain ⟨hrows, hcols⟩ := Shape.matrix.inj (ResolvedGrid.shape_assembled h)
  have hinner : r.assembled.ncols = xs.flatten.length := by
    rw [hcols, List.length_flatten, hlen]
    rfl
  obtain ⟨y, hy, hylen⟩ := SparseMatrix.mulVec_outcome hinner
  exact ⟨y, BlockVector.flatten_of_forall₂ hx, hy, hylen.trans hrows,
    ResolvedGrid.slices_mulVec_assembled h hlen hy⟩

/-- A block vector for the two block columns of `bordered`, one component to be computed. -/
def besideBordered : BlockVector Int := [.vector [1, 2], .product [.scalar 3, .vector [1]]]

theorem mulVec_assemble_bordered : bordered.WellFormed ∧ (∀ e ∈ bordered.cells, e.WellFormed) ∧
    ∃ r, bordered.resolve = .ok r ∧
      List.Forall₂ (fun e y => e.eval = .ok (.vector y)) besideBordered [[1, 2], [3]] ∧
      [[1, 2], [(3 : Int)]].map List.length = r.sizes.colSizes ∧ r.sizes.Bounded ∧
      ∃ a y, r.concatenate = .ok a ∧ r.streamRows = .ok a ∧
        BlockVector.flatten besideBordered = .ok [1, 2, 3] ∧ a.mulVec [1, 2, 3] = .ok y ∧
        y.length = 3 ∧ slices y [0, 2, 3] = [[2, 13], [8]] := by
  have hb : bordered.WellFormed := by decide
  have hr : bordered.resolve = .ok ⟨⟨[2, 1], [2, 1]⟩, ⟨2, 2,
      [.identity 2, .matrix ⟨1, [[(0, 0)], [(0, 3)]]⟩, .matrix ⟨2, [[(1, 4)]]⟩, .zero]⟩⟩ := rfl
  have hx : List.Forall₂ (fun e y => e.eval = .ok (.vector y)) besideBordered [[1, 2], [3]] :=
    .cons rfl (.cons rfl .nil)
  have hbounded : BlockSizes.Bounded ⟨[2, 1], [2, 1]⟩ := by decide
  obtain ⟨hmatrix, haction⟩ := mulVec_assemble hb wellFormed_cells_bordered hr hx rfl
  obtain ⟨a, hconcatenate, hstream⟩ := hmatrix hbounded
  obtain ⟨y, hy⟩ := haction a (.inl hconcatenate)
  exact ⟨hb, wellFormed_cells_bordered, _, hr, hx, rfl, hbounded, a, y, hconcatenate, hstream, hy⟩

end BlockMatrix

end Action
end BlockSparse
