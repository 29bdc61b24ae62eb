import BlockSparse.Block.Resolve
import BlockSparse.Proofs.Expr.Outcome
import BlockSparse.Proofs.Expr.WellFormed
import BlockSparse.Proofs.Grid

/-! What resolution guarantees. The sizes found for a grid are those of all its cells that have a
shape, and evaluation keeps shapes, so every resolved cell fits into its place. -/
namespace BlockSparse
variable {α : Type}

namespace BlockSizes
variable {shapes : Grid (Option Shape)} {sizes : BlockSizes} {i j : Nat}

lemma eq_of_uniqueSize {axis : Axis} {index size : Nat} {found : List (Option Nat)}
    (h : uniqueSize axis index found = .ok size) {n : Nat} (hn : some n ∈ found) : n = size := by
  unfold uniqueSize at h
  split at h
  · rename_i s hs
    cases h
    have hmem : n ∈ Ascending.ofList (found.filterMap id) :=
      Ascending.mem_ofList.2 (List.mem_filterMap.2 ⟨some n, hn, rfl⟩)
    rw [hs] at hmem
    exact List.mem_singleton.1 hmem
  · cases h

lemma sizesFrom_spec {size : Nat → Except Error Nat} {count : Nat} {found : List Nat}
    (h : sizesFrom size 0 count = .ok found) :
    found.length = count ∧ ∀ i < count, size i = .ok (found[i]?.getD 0) := by
  rw [sizesFrom_eq_mapM] at h
  have hlen := (Traversal.mapM_eq_ok_iff.1 h).length_eq
  rw [List.length_range'] at hlen
  refine ⟨hlen.symm, fun i hi => ?_⟩
  have hi' := Traversal.getElem?_of_mapM_eq_ok h i
  rw [List.getElem?_range' hi, Option.map_some, eq_comm, Option.map_eq_some_iff] at hi'
  obtain ⟨n, hn, hsize⟩ := hi'
  rw [hn]
  simpa using hsize.symm

/-- A shape that has the sizes of its place; a vector says nothing about the width of its column. -/
def FitTo (sizes : BlockSizes) (i j : Nat) (t : Shape) : Prop :=
  t.rows = sizes.rowSize i ∧ ∀ n, t.cols? = some n → n = sizes.colSize j

/-- The sizes of a grid are those of all its cells that have a shape. -/
theorem ofShapes_spec (h : ofShapes shapes = .ok sizes) :
    sizes.rowSizes.length = shapes.numRows ∧ sizes.colSizes.length = shapes.numCols ∧
      ∀ i j t, shapes.get? i j = some (some t) → sizes.FitTo i j t := by
  rw [ofShapes, Traversal.bind_eq_ok_iff] at h
  obtain ⟨rowSizes, hrowSizes, h⟩ := h
  obtain ⟨colSizes, hcolSizes, h⟩ := Traversal.bind_eq_ok_iff.1 h
  cases h
  obtain ⟨hrows, hrow⟩ := sizesFrom_spec hrowSizes
  obtain ⟨hcols, hcol⟩ := sizesFrom_spec hcolSizes
  refine ⟨hrows, hcols, fun i j t ht => ?_⟩
  obtain ⟨hi, hj, _⟩ := Grid.get?_eq_some_iff.1 ht
  constructor
  · have hmem : some t ∈ shapes.blockRow i :=
      List.mem_of_getElem? ((Grid.getElem?_blockRow shapes hi).trans ht)
    exact eq_of_uniqueSize (hrow i hi) (List.mem_map.2 ⟨some t, hmem, rfl⟩)
  · intro n hn
    have hmem : some t ∈ shapes.blockCol j := by
      rw [Grid.blockCol_eq shapes hj, List.mem_filterMap]
      exact ⟨i, List.mem_range.2 hi, ht⟩
    exact eq_of_uniqueSize (hcol j hj) (List.mem_map.2 ⟨some t, hmem, hn⟩)

end BlockSizes

/-- A block that has the given size wherever it has one. -/
def ResolvedBlock.Fits (rows cols : Nat) : ResolvedBlock α → Prop
  | matrix a => a.WellFormed ∧ a.nrows = rows ∧ a.ncols = cols
  | zero => True
  | identity _ => rows = cols

/-- There is a size for each row and column of the grid, and every cell fits into its place. -/
structure ResolvedGrid.WellFormed (r : ResolvedGrid α) : Prop where
  cells : r.cells.WellFormed
  rows : r.sizes.rowSizes.length = r.cells.numRows
  cols : r.sizes.colSizes.length = r.cells.numCols
  fits : ∀ i j cell, r.cells.get? i j = some cell →
    cell.Fits (r.sizes.rowSize i) (r.sizes.colSize j)

lemma ResolvedBlock.fits_of_ofValue [Zero α] [BEq α] {sizes : BlockSizes} {i j : Nat} {v : Value α}
    {cell : ResolvedBlock α} (hv : v.WellFormed) (hfit : ∀ t, v.shape? = some t → sizes.FitTo i j t)
    (h : ofValue i j (sizes.rowSize i) (sizes.colSize j) v = .ok cell) :
    cell.Fits (sizes.rowSize i) (sizes.colSize j) := by
  cases v with
  | scalar s =>
    rw [ofValue] at h
    split at h
    · cases h
      trivial
    · split at h
      · rename_i hsq
        cases h
        exact hsq
      · cases h
  | matrix a =>
    cases h
    obtain ⟨hrows, hcols⟩ := hfit a.shape rfl
    exact ⟨hv, hrows, hcols a.ncols rfl⟩
  | vector x => cases h

namespace BlockMatrix
variable [Zero α] [One α] [Add α] [Mul α] [Neg α] [BEq α] {b : BlockMatrix α}

omit [Zero α] [One α] [Add α] [Mul α] [Neg α] [BEq α] in
/-- The sizes of a block matrix fit to the shapes of its cells. -/
lemma sizes_spec {sizes : BlockSizes} (h : b.sizes = .ok sizes) :
    sizes.rowSizes.length = b.numRows ∧ sizes.colSizes.length = b.numCols ∧
      ∀ i j e, b.get? i j = some e →
        ∃ s, e.shape = .ok s ∧ ∀ t, s = some t → sizes.FitTo i j t := by
  rw [BlockMatrix.sizes, Traversal.bind_eq_ok_iff] at h
  obtain ⟨shapes, hshapes, h⟩ := h
  obtain ⟨hrows, hcols, hfit⟩ := BlockSizes.ofShapes_spec h
  obtain ⟨hnumRows, hnumCols⟩ := Grid.size_of_traverse hshapes
  refine ⟨hrows.trans hnumRows, hcols.trans hnumCols, fun i j e he => ?_⟩
  obtain ⟨s, hs, hshape⟩ := Grid.exists_of_traverse_left hshapes he
  exact ⟨s, hshape, fun t ht => hfit i j t (ht ▸ hs)⟩

/-- Resolution succeeds when sizes are found and every cell has a value that fits into its place. -/
lemma resolve_eq_ok_iff {r : ResolvedGrid α} : b.resolve = .ok r ↔ b.sizes = .ok r.sizes ∧
    b.traverse (fun i j e => (Expr.run e).result >>=
      ResolvedBlock.ofValue i j (r.sizes.rowSize i) (r.sizes.colSize j)) = .ok r.cells := by
  rw [resolve_eq, Traversal.bind_eq_ok_iff]
  constructor
  · rintro ⟨sizes, hsizes, h⟩
    obtain ⟨cells, hcells, h⟩ := Traversal.bind_eq_ok_iff.1 h
    cases h
    exact ⟨hsizes, hcells⟩
  · rintro ⟨hsizes, hcells⟩
    exact ⟨r.sizes, hsizes, Traversal.bind_eq_ok_iff.2 ⟨r.cells, hcells, rfl⟩⟩

/-- Resolution gives a grid in which every cell fits into its place. -/
theorem wellFormed_of_resolve (hb : b.WellFormed) (he : ∀ e ∈ b.cells, e.WellFormed)
    {r : ResolvedGrid α} (h : b.resolve = .ok r) : r.WellFormed := by
  obtain ⟨hsizes, hcells⟩ := resolve_eq_ok_iff.1 h
  obtain ⟨hrows, hcols, hfit⟩ := sizes_spec hsizes
  obtain ⟨hnumRows, hnumCols⟩ := Grid.size_of_traverse hcells
  refine ⟨Grid.wellFormed_of_traverse hb hcells, hrows.trans hnumRows.symm,
    hcols.trans hnumCols.symm, fun i j cell hcell => ?_⟩
  obtain ⟨e, hget, hvalue⟩ := Grid.exists_of_traverse_right hcells hcell
  obtain ⟨v, hv, hvalue⟩ := Traversal.bind_eq_ok_iff.1 hvalue
  obtain ⟨s, hshape, hs⟩ := hfit i j e hget
  obtain ⟨_, _, hmem⟩ := Grid.get?_eq_some_iff.1 hget
  refine ResolvedBlock.fits_of_ofValue
    (Expr.wellFormed_of_run (he e (List.mem_of_getElem? hmem)) hv) (fun t ht => hs t ?_) hvalue
  rw [← Expr.shape_of_run hshape hv, ht]

end BlockMatrix
end BlockSparse
