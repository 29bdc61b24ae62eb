import BlockSparse.Proofs.Block.Strategies
import BlockSparse.Proofs.Sparse.Equations

/-! What an assembled matrix stores. At the places of a block it stores what the block does, so it
can be compared with another matrix block by block. -/
namespace BlockSparse
open Offsets
variable {α : Type}

namespace SparseMatrix
variable {a b : SparseMatrix α} {i j : Nat}

lemma stored?_eq_some_iff (ha : a.WellFormed) {x : α} :
    a.stored? i j = some x ↔ (i, j, x) ∈ a.triplets := by
  rw [stored?, lookup_eq_some_iff (ha.row i).1, mem_triplets_iff]

lemma stored?_eq_none (ha : a.WellFormed) (h : ¬ (i < a.nrows ∧ j < a.ncols)) :
    a.stored? i j = none :=
  lookup_eq_none_iff.2 fun hmem => h ⟨lt_nrows_of_mem hmem, (ha.row i).2 j hmem⟩

/-- Well-formed matrices as large as a grid are equal if they store the same at all places of its
blocks. -/
theorem ext_places {sizes : BlockSizes} (ha : a.WellFormed) (hb : b.WellFormed)
    (hsa : a.shape = .matrix sizes.totalRows sizes.totalCols)
    (hsb : b.shape = .matrix sizes.totalRows sizes.totalCols)
    (h : ∀ i j p q, p < sizes.rowSize i → q < sizes.colSize j →
      a.stored? (position sizes.rowSizes i p) (position sizes.colSizes j q) =
        b.stored? (position sizes.rowSizes i p) (position sizes.colSizes j q)) : a = b := by
  obtain ⟨harows, hacols⟩ := Shape.matrix.inj hsa
  obtain ⟨hbrows, hbcols⟩ := Shape.matrix.inj hsb
  refine ext_stored ha hb (hsa.trans hsb.symm) fun m n => ?_
  by_cases hmn : m < sizes.totalRows ∧ n < sizes.totalCols
  · obtain ⟨i, p, hp, rfl⟩ := exists_position hmn.1
    obtain ⟨j, q, hq, rfl⟩ := exists_position hmn.2
    exact h i j p q hp hq
  · rw [stored?_eq_none ha (by rwa [harows, hacols]), stored?_eq_none hb (by rwa [hbrows, hbcols])]

end SparseMatrix

namespace BlockSizes
variable {sizes : BlockSizes} {blocks : List (Option (SparseMatrix α))} {i j p q : Nat}

/-- At the places of a block, the matrix made of all placed entries stores what the block does. -/
theorem stored?_placedAll (h : sizes.AllFit blocks) {block : Option (SparseMatrix α)}
    (hblock : (sizes.grid blocks).get? i j = some block) (hp : p < sizes.rowSize i)
    (hq : q < sizes.colSize j) :
    (SparseMatrix.ofRowsAmong sizes.totalRows sizes.totalCols (sizes.placedAll blocks)).stored?
      (position sizes.rowSizes i p) (position sizes.colSizes j q) =
      block.bind (·.stored? p q) := by
  have hwf : (SparseMatrix.ofRowsAmong sizes.totalRows sizes.totalCols
      (sizes.placedAll blocks)).WellFormed := SparseMatrix.wellFormed_ofRowsAmong
    (fun t ht => (lt_of_mem_placedAll h ht).2) (ascending_rowAmong_placedAll h)
  apply Option.ext
  intro x
  rw [SparseMatrix.stored?_eq_some_iff hwf, SparseMatrix.mem_triplets_ofRowsAmong
    fun t ht => (lt_of_mem_placedAll h ht).1, mem_placedAll_iff h.1, Option.bind_eq_some_iff]
  constructor
  · rintro ⟨i', j', a, p', q', x', hget, hmem, hplace⟩
    obtain ⟨ha, hrows, hcols⟩ := h.2 i' j' _ hget a rfl
    obtain ⟨hp', hq'⟩ := SparseMatrix.lt_of_mem_triplets ha hmem
    rw [hrows] at hp'
    rw [hcols] at hq'
    -- the place is that of no other block
    obtain ⟨hrow, hplace⟩ := Prod.mk.inj hplace
    obtain ⟨hcol, rfl⟩ := Prod.mk.inj hplace
    obtain ⟨rfl, rfl⟩ := (position_inj hp hp').1 hrow
    obtain ⟨rfl, rfl⟩ := (position_inj hq hq').1 hcol
    exact ⟨a, Option.some.inj (hblock.symm.trans hget),
      (SparseMatrix.stored?_eq_some_iff ha).2 hmem⟩
  · rintro ⟨a, rfl, hx⟩
    have ha := (h.2 i j _ hblock a rfl).1
    exact ⟨i, j, a, p, q, x, hblock, (SparseMatrix.stored?_eq_some_iff ha).1 hx, rfl⟩

end BlockSizes

namespace ResolvedBlock

/-- The value that a block stores at one of its places, given its number of rows. -/
def stored? (cell : ResolvedBlock α) (rows p q : Nat) : Option α :=
  (cell.matrix? rows).bind (·.stored? p q)

/-- The value at a place of a block, which is zero where nothing is stored. -/
def value [Zero α] (p q : Nat) : ResolvedBlock α → α
  | matrix a => a.value p q
  | zero => 0
  | identity s => if p = q then s else 0

lemma getD_stored? [Zero α] (cell : ResolvedBlock α) {rows p : Nat} (hp : p < rows) (q : Nat) :
    (cell.stored? rows p q).getD 0 = cell.value p q := by
  cases cell with
  | matrix a => rfl
  | zero => rfl
  | identity s => exact SparseMatrix.value_scaledIdentity s hp q

end ResolvedBlock

namespace ResolvedGrid
variable {r : ResolvedGrid α} {i j p q : Nat}

/-- Wherever a block has places, there is a cell. -/
lemma exists_cell (h : r.WellFormed) (hp : p < r.sizes.rowSize i) (hq : q < r.sizes.colSize j) :
    ∃ cell, r.cells.get? i j = some cell :=
  Grid.exists_get? h.cells (h.rows ▸ lt_length_of_lt hp) (h.cols ▸ lt_length_of_lt hq)

/-- At the places of a block, the assembled matrix stores what the block does. -/
theorem stored?_assembled (h : r.WellFormed) {cell : ResolvedBlock α}
    (hcell : r.cells.get? i j = some cell) (hp : p < r.sizes.rowSize i)
    (hq : q < r.sizes.colSize j) : r.assembled.stored? (position r.sizes.rowSizes i p)
      (position r.sizes.colSizes j q) = cell.stored? (r.sizes.rowSize i) p q := by
  have hblock : (r.sizes.grid r.blocks).get? i j = some (cell.matrix? (r.sizes.rowSize i)) := by
    rw [grid_blocks h, Grid.get?_mapIdx, hcell, Option.map_some]
  rw [assembled_eq h]
  exact BlockSizes.stored?_placedAll (allFit_blocks h) hblock hp hq

lemma value_assembled [Zero α] (h : r.WellFormed) {cell : ResolvedBlock α}
    (hcell : r.cells.get? i j = some cell) (hp : p < r.sizes.rowSize i)
    (hq : q < r.sizes.colSize j) : r.assembled.value (position r.sizes.rowSizes i p)
      (position r.sizes.colSizes j q) = cell.value p q := by
  rw [SparseMatrix.value, stored?_assembled h hcell hp hq, ResolvedBlock.getD_stored? cell hp]

end ResolvedGrid
end BlockSparse
