import BlockSparse.Proofs.Block.Entries
import BlockSparse.Proofs.Sparse.Dense

/-! Concatenation of dense blocks by copying each one into its window. The windows of blocks that
have the sizes of their places lie inside the result and apart from each other, so that the copies
give the dense form of the matrix that is made of the entries of the sparse blocks. -/
namespace BlockSparse
open Offsets
variable {α : Type}

namespace DenseMatrix
variable {blocks : List (List (DenseMatrix α))}

/-- The blocks with the row and the column that they are copied to, in the order of copying. -/
def pieces (blocks : List (List (DenseMatrix α))) : List (Nat × Nat × DenseMatrix α) :=
  (blocks.zip (startsFrom 0 (heights blocks))).flatMap fun p =>
    (p.1.zip (startsFrom 0 (widths blocks))).map fun q => (p.2, q.2, q.1)

/-- All blocks copied into a matrix of zeros. -/
def copied [Zero α] (blocks : List (List (DenseMatrix α))) : DenseMatrix α :=
  (zeros (heights blocks).sum (widths blocks).sum).pasteAll (pieces blocks)

lemma ofBlocks_of_bounded [Zero α] (h : BlockSizes.Bounded ⟨heights blocks, widths blocks⟩) :
    ofBlocks blocks = .ok (copied blocks) := by
  have hrows : total (heights blocks) < Size.bound := h.1
  have hcols : total (widths blocks) < Size.bound := h.2
  rw [copied, pasteAll, pieces, List.foldl_flatMap]
  simp only [List.foldl_map]
  rw [ofBlocks, Size.sum_of_lt hrows, Size.sum_of_lt hcols, Size.startsFrom_of_lt hrows,
    Size.startsFrom_of_lt hcols]
  rfl

/-- Sizes that cannot be added up are met before anything is copied. -/
lemma ofBlocks_of_not_bounded [Zero α] (h : ¬ BlockSizes.Bounded ⟨heights blocks, widths blocks⟩) :
    ofBlocks blocks = .error (.sizeOverflow .add) := by
  rw [ofBlocks]
  by_cases hrows : total (heights blocks) < Size.bound
  · have hcols : Size.bound ≤ total (widths blocks) := Nat.le_of_not_lt fun hlt => h ⟨hrows, hlt⟩
    rw [Size.sum_of_lt hrows, Size.sum_of_le hcols]
    rfl
  · rw [Size.sum_of_le (Nat.le_of_not_lt hrows)]
    rfl

lemma mem_zip_startsFrom_iff {β : Type} {xs : List β} {sizes : List Nat} {x : β} {start : Nat} :
    (x, start) ∈ xs.zip (startsFrom 0 sizes) ↔
      ∃ i, xs[i]? = some x ∧ i < sizes.length ∧ start = (sizes.take i).sum := by
  rw [List.mem_iff_getElem?]
  simp only [List.getElem?_zip_eq_some, getElem?_startsFrom, Option.map_eq_some_iff, Nat.zero_add]
  constructor
  · rintro ⟨i, hx, n, hn, hstart⟩
    exact ⟨i, hx, (List.getElem?_eq_some_iff.1 hn).1, hstart.symm⟩
  · rintro ⟨i, hx, hi, hstart⟩
    exact ⟨i, hx, sizes[i], List.getElem?_eq_getElem hi, hstart.symm⟩

/-- A block is copied to where the block rows before its own and the block columns before its own
end. -/
lemma mem_pieces_iff {top left : Nat} {block : DenseMatrix α} :
    (top, left, block) ∈ pieces blocks ↔ ∃ i j : Nat, blocks[i]?.bind (·[j]?) = some block ∧
      j < (widths blocks).length ∧ top = ((heights blocks).take i).sum ∧
      left = ((widths blocks).take j).sum := by
  rw [pieces, List.mem_flatMap]
  constructor
  · rintro ⟨⟨row, top'⟩, hrow, hmem⟩
    obtain ⟨⟨block', left'⟩, hblock, heq⟩ := List.mem_map.1 hmem
    cases heq
    obtain ⟨i, hi, _, htop⟩ := mem_zip_startsFrom_iff.1 hrow
    obtain ⟨j, hj, hlt, hleft⟩ := mem_zip_startsFrom_iff.1 hblock
    exact ⟨i, j, Option.bind_eq_some_iff.2 ⟨row, hi, hj⟩, hlt, htop, hleft⟩
  · rintro ⟨i, j, hij, hlt, htop, hleft⟩
    obtain ⟨row, hi, hj⟩ := Option.bind_eq_some_iff.1 hij
    have hlen : i < (heights blocks).length := by
      rw [heights, List.length_map]
      exact (List.getElem?_eq_some_iff.1 hi).1
    exact ⟨(row, top), mem_zip_startsFrom_iff.2 ⟨i, hi, hlen, htop⟩,
      List.mem_map.2 ⟨(block, left), mem_zip_startsFrom_iff.2 ⟨j, hj, hlt, hleft⟩, rfl⟩⟩

end DenseMatrix

namespace BlockSizes
variable {sizes : BlockSizes} {blocks : List (List (SparseMatrix α))} {i j p q : Nat}

/-- Block rows of well-formed blocks that have the sizes of their places. -/
structure Tiles (sizes : BlockSizes) (blocks : List (List (SparseMatrix α))) : Prop where
  length_rows : blocks.length = sizes.rowSizes.length
  length_row : ∀ row ∈ blocks, row.length = sizes.colSizes.length
  fits : ∀ i j a, blocks[i]?.bind (·[j]?) = some a →
    a.WellFormed ∧ a.nrows = sizes.rowSize i ∧ a.ncols = sizes.colSize j

lemma Tiles.exists_block (h : sizes.Tiles blocks) (hi : i < sizes.rowSizes.length)
    (hj : j < sizes.colSizes.length) : ∃ a, blocks[i]?.bind (·[j]?) = some a := by
  have hlt : i < blocks.length := h.length_rows ▸ hi
  have hrow := h.length_row blocks[i] (List.getElem_mem hlt)
  rw [List.getElem?_eq_getElem hlt, Option.bind_some]
  exact ⟨_, List.getElem?_eq_getElem (hrow ▸ hj)⟩

variable [Zero α] [Add α]

/-- The dense forms of the blocks. -/
def denseBlocks (blocks : List (List (SparseMatrix α))) : List (List (DenseMatrix α)) :=
  blocks.map (·.map SparseMatrix.toDense)

lemma getElem?_denseBlocks (blocks : List (List (SparseMatrix α))) (i j : Nat) :
    (denseBlocks blocks)[i]?.bind (·[j]?) =
      (blocks[i]?.bind (·[j]?)).map SparseMatrix.toDense := by
  rw [denseBlocks, List.getElem?_map]
  cases blocks[i]? with
  | none => rfl
  | some row => exact List.getElem?_map

/-- The first blocks of the block rows show the heights. -/
lemma Tiles.heights_eq (h : sizes.Tiles blocks) (hcols : 1 ≤ sizes.colSizes.length) :
    DenseMatrix.heights (denseBlocks blocks) = sizes.rowSizes := by
  have hlen : (DenseMatrix.heights (denseBlocks blocks)).length = sizes.rowSizes.length := by
    rw [DenseMatrix.heights, denseBlocks, List.length_map, List.length_map, h.length_rows]
  apply List.ext_getElem hlen
  intro i hi hi'
  obtain ⟨a, ha⟩ := h.exists_block hi' hcols
  have hrows := (h.fits i 0 a ha).2.1
  obtain ⟨row, hrow, hfirst⟩ := Option.bind_eq_some_iff.1 ha
  obtain ⟨hlt, rfl⟩ := List.getElem?_eq_some_iff.1 hrow
  simp [DenseMatrix.heights, denseBlocks, List.head?_eq_getElem?, hfirst, hrows, rowSize, hi']

/-- The blocks of the first block row show the widths. -/
lemma Tiles.widths_eq (h : sizes.Tiles blocks) (hrows : 1 ≤ sizes.rowSizes.length) :
    DenseMatrix.widths (denseBlocks blocks) = sizes.colSizes := by
  have hlt : 0 < blocks.length := h.length_rows ▸ hrows
  have hrow := h.length_row blocks[0] (List.getElem_mem hlt)
  have hwidths : DenseMatrix.widths (denseBlocks blocks) = blocks[0].map SparseMatrix.ncols := by
    simp [DenseMatrix.widths, denseBlocks, List.head?_eq_getElem?, hlt, Function.comp_def]
  rw [hwidths]
  refine List.ext_getElem (by rw [List.length_map, hrow]) fun j hj hj' => ?_
  have hj₀ : j < blocks[0].length := hrow ▸ hj'
  have hblock : blocks[0]?.bind (·[j]?) = some blocks[0][j] := by simp [hlt]
  rw [List.getElem_map, (h.fits 0 j _ hblock).2.2, colSize, List.getElem?_eq_getElem hj',
    Option.getD_some]

/-- The pieces are the dense forms of the blocks, each at the start of its place. -/
lemma Tiles.mem_pieces_iff (h : sizes.Tiles blocks) (hrows : 1 ≤ sizes.rowSizes.length)
    (hcols : 1 ≤ sizes.colSizes.length) {top left : Nat} {d : DenseMatrix α} :
    (top, left, d) ∈ DenseMatrix.pieces (denseBlocks blocks) ↔ ∃ i j a,
      blocks[i]?.bind (·[j]?) = some a ∧ d = a.toDense ∧ top = (sizes.rowSizes.take i).sum ∧
        left = (sizes.colSizes.take j).sum := by
  rw [DenseMatrix.mem_pieces_iff, h.heights_eq hcols, h.widths_eq hrows]
  simp only [getElem?_denseBlocks, Option.map_eq_some_iff]
  constructor
  · rintro ⟨i, j, ⟨a, ha, rfl⟩, _, htop, hleft⟩
    exact ⟨i, j, a, ha, rfl, htop, hleft⟩
  · rintro ⟨i, j, a, ha, rfl, htop, hleft⟩
    refine ⟨i, j, ⟨a, ha, rfl⟩, ?_, htop, hleft⟩
    obtain ⟨row, hrow, hj⟩ := Option.bind_eq_some_iff.1 ha
    rw [← h.length_row row (List.mem_of_getElem? hrow)]
    exact (List.getElem?_eq_some_iff.1 hj).1

/-- A window reaches no further than the blocks together. -/
lemma Tiles.window_le (h : sizes.Tiles blocks) {a : SparseMatrix α}
    (ha : blocks[i]?.bind (·[j]?) = some a) :
    (sizes.rowSizes.take i).sum + a.toDense.nrows ≤ sizes.totalRows ∧
      (sizes.colSizes.take j).sum + a.toDense.ncols ≤ sizes.totalCols := by
  obtain ⟨_, hrows, hcols⟩ := h.fits i j a ha
  rw [SparseMatrix.nrows_toDense, SparseMatrix.ncols_toDense, hrows, hcols]
  exact ⟨sum_take_add_le sizes.rowSizes i, sum_take_add_le sizes.colSizes j⟩

/-- At the places of a block, the window of that block has its entries. -/
lemma Tiles.window?_self (h : sizes.Tiles blocks) {a : SparseMatrix α}
    (ha : blocks[i]?.bind (·[j]?) = some a) (hp : p < sizes.rowSize i)
    (hq : q < sizes.colSize j) :
    a.toDense.window? (sizes.rowSizes.take i).sum (sizes.colSizes.take j).sum
      (position sizes.rowSizes i p) (position sizes.colSizes j q) = some (a.denseEntry p q) := by
  obtain ⟨_, hrows, hcols⟩ := h.fits i j a ha
  rw [DenseMatrix.window?, position, position, if_pos ⟨Nat.le_add_right .., Nat.le_add_right ..⟩,
    Nat.add_sub_cancel_left, Nat.add_sub_cancel_left,
    SparseMatrix.stored?_toDense (hrows ▸ hp) (hcols ▸ hq)]

/-- At the places of a block, the windows of other blocks have nothing. -/
lemma Tiles.eq_of_window? (h : sizes.Tiles blocks) {a : SparseMatrix α} {i' j' : Nat}
    (ha : blocks[i']?.bind (·[j']?) = some a) (hp : p < sizes.rowSize i)
    (hq : q < sizes.colSize j) {x : α}
    (hx : a.toDense.window? (sizes.rowSizes.take i').sum (sizes.colSizes.take j').sum
      (position sizes.rowSizes i p) (position sizes.colSizes j q) = some x) :
    i' = i ∧ j' = j := by
  obtain ⟨_, hrows, hcols⟩ := h.fits i' j' a ha
  unfold DenseMatrix.window? at hx
  split at hx
  · rename_i hle
    have hinside := (DenseMatrix.isSome_stored?_iff (SparseMatrix.rectangular_toDense a)).1
      (Option.isSome_of_eq_some hx)
    rw [SparseMatrix.nrows_toDense, SparseMatrix.ncols_toDense, hrows, hcols] at hinside
    exact ⟨(place_of_start_le hp hle.1 hinside.1).1, (place_of_start_le hq hle.2 hinside.2).1⟩
  · cases hx

/-- At the places of a block, dense concatenation has the entries of its dense form. -/
theorem Tiles.stored?_copied (h : sizes.Tiles blocks) {a : SparseMatrix α}
    (ha : blocks[i]?.bind (·[j]?) = some a) (hp : p < sizes.rowSize i)
    (hq : q < sizes.colSize j) :
    (DenseMatrix.copied (denseBlocks blocks)).stored? (position sizes.rowSizes i p)
      (position sizes.colSizes j q) = some (a.denseEntry p q) := by
  have hrows : 1 ≤ sizes.rowSizes.length := Nat.zero_lt_of_lt (lt_length_of_lt hp)
  have hcols : 1 ≤ sizes.colSizes.length := Nat.zero_lt_of_lt (lt_length_of_lt hq)
  have hself := h.window?_self ha hp hq
  have hzero : ((DenseMatrix.zeros sizes.rowSizes.sum sizes.colSizes.sum :
      DenseMatrix α).stored? (position sizes.rowSizes i p)
      (position sizes.colSizes j q)).isSome := by
    rw [DenseMatrix.stored?_zeros (position_lt_sum hp) (position_lt_sum hq)]
    rfl
  rw [DenseMatrix.copied, h.heights_eq hcols, h.widths_eq hrows]
  refine DenseMatrix.stored?_pasteAll hzero
    ((h.mem_pieces_iff hrows hcols).2 ⟨i, j, a, ha, rfl, rfl, rfl⟩) hself ?_
  rintro ⟨top, left, d⟩ hmem y hy
  obtain ⟨i', j', a', ha', rfl, rfl, rfl⟩ := (h.mem_pieces_iff hrows hcols).1 hmem
  obtain ⟨rfl, rfl⟩ := h.eq_of_window? ha' hp hq hy
  cases ha.symm.trans ha'
  exact Option.some.inj (hy.symm.trans hself)

/-- Dense concatenation makes a matrix of the total size. -/
lemma Tiles.size_copied (h : sizes.Tiles blocks) (hrows : 1 ≤ sizes.rowSizes.length)
    (hcols : 1 ≤ sizes.colSizes.length) :
    (DenseMatrix.copied (denseBlocks blocks)).Rectangular ∧
      (DenseMatrix.copied (denseBlocks blocks)).nrows = sizes.totalRows ∧
      (DenseMatrix.copied (denseBlocks blocks)).ncols = sizes.totalCols := by
  rw [DenseMatrix.copied, h.heights_eq hcols, h.widths_eq hrows]
  refine ⟨DenseMatrix.rectangular_pasteAll (DenseMatrix.rectangular_zeros _ _) _, ?_, ?_⟩
  · rw [DenseMatrix.nrows_pasteAll, DenseMatrix.nrows_zeros]
    rfl
  · rw [DenseMatrix.ncols_pasteAll, DenseMatrix.ncols_zeros]
    rfl

/-- What is given for a block to sparse concatenation: the block, or nothing for a block whose dense
form is all zeros. -/
inductive GivenAs : SparseMatrix α → Option (SparseMatrix α) → Prop
  | whole (a : SparseMatrix α) : GivenAs a (some a)
  | omitted {a : SparseMatrix α} (h : a.toDense = DenseMatrix.zeros a.nrows a.ncols) :
    GivenAs a none

variable {given : List (Option (SparseMatrix α))}

/-- What is given stands at the place of its block. -/
lemma Tiles.exists_given (h : sizes.Tiles blocks)
    (hgiven : List.Forall₂ GivenAs blocks.flatten given) (hi : i < sizes.rowSizes.length)
    (hj : j < sizes.colSizes.length) : ∃ a block, blocks[i]?.bind (·[j]?) = some a ∧
      (sizes.grid given).get? i j = some block ∧ GivenAs a block := by
  obtain ⟨a, ha⟩ := h.exists_block hi hj
  have hflat := Grid.getElem?_flatten_of_forall h.length_row i hj
  rw [ha] at hflat
  obtain ⟨block, hblock, hgivenAs⟩ := Traversal.exists_getElem?_of_forall₂ hgiven hflat
  exact ⟨a, block, ha, Grid.get?_eq_some_iff.2 ⟨hi, hj, hblock⟩, hgivenAs⟩

lemma Tiles.allFit (h : sizes.Tiles blocks)
    (hgiven : List.Forall₂ GivenAs blocks.flatten given) : sizes.AllFit given := by
  constructor
  · have hlen := Grid.length_flatten_of_forall h.length_row
    rw [h.length_rows, hgiven.length_eq] at hlen
    exact hlen
  · rintro i j block hget b rfl
    obtain ⟨hi, hj, _⟩ := Grid.get?_eq_some_iff.1 hget
    obtain ⟨a, block, ha, hblock, hgivenAs⟩ := h.exists_given hgiven hi hj
    cases hget.symm.trans hblock
    cases hgivenAs
    exact h.fits i j b ha

/-- At the places of a block, sparse concatenation has the entries of the dense form of the block,
also where nothing is given for it. -/
theorem Tiles.exists_denseEntry_eq (h : sizes.Tiles blocks)
    (hgiven : List.Forall₂ GivenAs blocks.flatten given) (hp : p < sizes.rowSize i)
    (hq : q < sizes.colSize j) : ∃ a, blocks[i]?.bind (·[j]?) = some a ∧
      (SparseMatrix.ofRowsAmong sizes.totalRows sizes.totalCols
        (sizes.placedAll given)).denseEntry (position sizes.rowSizes i p)
        (position sizes.colSizes j q) = a.denseEntry p q := by
  obtain ⟨a, block, ha, hblock, hgivenAs⟩ :=
    h.exists_given hgiven (lt_length_of_lt hp) (lt_length_of_lt hq)
  obtain ⟨_, hrows, hcols⟩ := h.fits i j a ha
  refine ⟨a, ha, ?_⟩
  rw [SparseMatrix.denseEntry, stored?_placedAll (h.allFit hgiven) hblock hp hq]
  cases hgivenAs with
  | whole => rfl
  | omitted hzeros =>
    exact (SparseMatrix.toDense_eq_zeros_iff.1 hzeros p (hrows ▸ hp) q (hcols ▸ hq)).symm

/-- The dense forms of blocks that tile a grid, copied into their windows, are the dense form of the
matrix made of the entries of what is given. -/
theorem Tiles.copied_eq (h : sizes.Tiles blocks) (hrows : 1 ≤ sizes.rowSizes.length)
    (hcols : 1 ≤ sizes.colSizes.length) (hgiven : List.Forall₂ GivenAs blocks.flatten given) :
    DenseMatrix.copied (denseBlocks blocks) = (SparseMatrix.ofRowsAmong sizes.totalRows
      sizes.totalCols (sizes.placedAll given)).toDense := by
  obtain ⟨hrect, hdrows, hdcols⟩ := h.size_copied hrows hcols
  obtain ⟨hmrows, hmcols⟩ := Shape.matrix.inj
    (SparseMatrix.shape_ofRowsAmong sizes.totalRows sizes.totalCols (sizes.placedAll given))
  refine DenseMatrix.ext_stored hrect (SparseMatrix.rectangular_toDense _)
    (by rw [hdrows, SparseMatrix.nrows_toDense, hmrows]) hdcols fun k hk l hl => ?_
  rw [hdrows] at hk
  rw [hdcols] at hl
  -- the position is a place of one block
  obtain ⟨i, p, hp, rfl⟩ := exists_position hk
  obtain ⟨j, q, hq, rfl⟩ := exists_position hl
  obtain ⟨a, ha, hentry⟩ := h.exists_denseEntry_eq hgiven hp hq
  rw [h.stored?_copied ha hp hq, SparseMatrix.stored?_toDense (hmrows.symm ▸ hk) hl, hentry]

/-- The dense forms of blocks that tile a grid, copied into their windows, are the dense form of the
matrix that concatenation makes of the blocks, of which those without any entry but zero may be left
out. No window reaches beyond the result. If the sizes of the grid cannot be added up, neither
concatenation has a result. -/
theorem toDense_concatenate (h : sizes.Tiles blocks) (hrows : 1 ≤ sizes.rowSizes.length)
    (hcols : 1 ≤ sizes.colSizes.length) (hgiven : List.Forall₂ GivenAs blocks.flatten given) :
    (sizes.Bounded → ∃ m, sizes.concatenate given = .ok m ∧
      DenseMatrix.ofBlocks (denseBlocks blocks) = .ok m.toDense ∧
      m.toDense.nrows = sizes.totalRows ∧ m.toDense.ncols = sizes.totalCols) ∧
    (¬ sizes.Bounded → sizes.concatenate given = .error (.sizeOverflow .add) ∧
      DenseMatrix.ofBlocks (denseBlocks blocks) = .error (.sizeOverflow .add)) ∧
    ∀ piece ∈ DenseMatrix.pieces (denseBlocks blocks),
      piece.1 + piece.2.2.nrows ≤ sizes.totalRows ∧
        piece.2.1 + piece.2.2.ncols ≤ sizes.totalCols := by
  -- the sizes that dense concatenation reads off the blocks are those of the grid
  have hsizes : BlockSizes.mk (DenseMatrix.heights (denseBlocks blocks))
      (DenseMatrix.widths (denseBlocks blocks)) = sizes := by
    rw [h.heights_eq hcols, h.widths_eq hrows]
  refine ⟨fun hb => ?_, fun hb => ?_, ?_⟩
  · obtain ⟨hmrows, hmcols⟩ := Shape.matrix.inj
      (SparseMatrix.shape_ofRowsAmong sizes.totalRows sizes.totalCols (sizes.placedAll given))
    refine ⟨_, concatenate_of_allFit (h.allFit hgiven) hb, ?_,
      (SparseMatrix.nrows_toDense _).trans hmrows, hmcols⟩
    rw [DenseMatrix.ofBlocks_of_bounded (hsizes.symm ▸ hb), h.copied_eq hrows hcols hgiven]
  · exact ⟨concatenate_of_not_bounded (h.allFit hgiven).1 hb,
      DenseMatrix.ofBlocks_of_not_bounded (hsizes.symm ▸ hb)⟩
  · rintro ⟨top, left, d⟩ hpiece
    obtain ⟨i, j, a, ha, rfl, rfl, rfl⟩ := (h.mem_pieces_iff hrows hcols).1 hpiece
    exact h.window_le ha

/-- Two block rows of two blocks. The first block row ends in a block that stores nothing, the
second one in a block that stores a zero. -/
def hollowRight : List (List (SparseMatrix Int)) :=
  [[⟨2, [[(0, 1), (1, 0)]]⟩, ⟨1, [[]]⟩], [⟨2, [[(1, 3)], []]⟩, ⟨1, [[(0, 0)], []]⟩]]

lemma tiles_hollowRight : Tiles ⟨[1, 2], [2, 1]⟩ hollowRight where
  length_rows := rfl
  length_row := by decide
  fits := by
    intro i j a h
    rcases i with _ | _ | i <;> rcases j with _ | _ | j <;> cases h <;> decide

theorem toDense_concatenate_hollowRight : Tiles ⟨[1, 2], [2, 1]⟩ hollowRight ∧
    Bounded ⟨[1, 2], [2, 1]⟩ ∧
    ∃ m : SparseMatrix Int, concatenate ⟨[1, 2], [2, 1]⟩ [some ⟨2, [[(0, 1), (1, 0)]]⟩, none,
        some ⟨2, [[(1, 3)], []]⟩, none] = .ok m ∧
      DenseMatrix.ofBlocks (denseBlocks hollowRight) = .ok m.toDense ∧
      m.toDense = DenseMatrix.mk 3 [[1, 0, 0], [0, 3, 0], [0, 0, 0]] := by
  have hgiven : List.Forall₂ GivenAs hollowRight.flatten [some ⟨2, [[(0, 1), (1, 0)]]⟩, none,
      some ⟨2, [[(1, 3)], []]⟩, none] :=
    .cons (.whole _) (.cons (.omitted rfl) (.cons (.whole _) (.cons (.omitted rfl) .nil)))
  have hb : Bounded ⟨[1, 2], [2, 1]⟩ := by decide
  obtain ⟨m, hm, hdense, _, _⟩ :=
    (toDense_concatenate tiles_hollowRight (by decide) (by decide) hgiven).1 hb
  have hcopied : DenseMatrix.ofBlocks (denseBlocks hollowRight) =
    .ok (DenseMatrix.mk 3 [[1, 0, 0], [0, 3, 0], [0, 0, 0]]) := rfl
  exact ⟨tiles_hollowRight, hb, m, hm, hdense, Except.ok.inj (hdense.symm.trans hcopied)⟩

/-- Two blocks without rows, side by side, whose widths add up to more than a size can hold. -/
def wideHollow : List (List (SparseMatrix Int)) := [[⟨18446744073709551615, []⟩, ⟨1, []⟩]]

lemma tiles_wideHollow : Tiles ⟨[0], [18446744073709551615, 1]⟩ wideHollow where
  length_rows := rfl
  length_row := by decide
  fits := by
    intro i j a h
    rcases i with _ | i <;> rcases j with _ | _ | j <;> cases h <;> decide

/-- The blocks tile their grid, but neither concatenation has a result. -/
theorem concatenations_wideHollow : Tiles ⟨[0], [18446744073709551615, 1]⟩ wideHollow ∧
    concatenate ⟨[0], [18446744073709551615, 1]⟩ (wideHollow.flatten.map some) =
      .error (.sizeOverflow .add) ∧
    DenseMatrix.ofBlocks (denseBlocks wideHollow) = .error (.sizeOverflow .add) := by
  have hdense : ¬ Bounded ⟨DenseMatrix.heights (denseBlocks wideHollow),
      DenseMatrix.widths (denseBlocks wideHollow)⟩ := by
    rw [tiles_wideHollow.heights_eq (by decide), tiles_wideHollow.widths_eq (by decide)]
    decide
  exact ⟨tiles_wideHollow, concatenate_of_not_bounded rfl (by decide),
    DenseMatrix.ofBlocks_of_not_bounded hdense⟩

end BlockSizes

end BlockSparse
