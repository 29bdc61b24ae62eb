import BlockSparse.Block.Assemble
import BlockSparse.Proofs.Grid
import BlockSparse.Proofs.Offsets
import BlockSparse.Proofs.Sparse.Coordinate
import BlockSparse.Proofs.Sparse.Kernels

/-! Concatenation of blocks. If every block has the size of its place, the blocks are laid out side
by side, and every stored entry of a block is stored once in the result. -/
namespace BlockSparse.BlockSizes
open Offsets
variable {α : Type} {sizes : BlockSizes} {i j : Nat}

/-- The error for a block whose size is not that of its place, its rows being compared first. -/
inductive Misplaced (sizes : BlockSizes) : Nat × Nat × Option (SparseMatrix α) → Error → Prop
  | rows {i j : Nat} {a : SparseMatrix α} (h : a.nrows ≠ sizes.rowSize i) :
    Misplaced sizes (i, j, some a) (.inconsistentSizes .row i [sizes.rowSize i, a.nrows])
  | cols {i j : Nat} {a : SparseMatrix α} (hrows : a.nrows = sizes.rowSize i)
    (h : a.ncols ≠ sizes.colSize j) :
    Misplaced sizes (i, j, some a) (.inconsistentSizes .column j [sizes.colSize j, a.ncols])

/-- A block that is present is well formed and has the size of its place. -/
def Fits (sizes : BlockSizes) (i j : Nat) (block : Option (SparseMatrix α)) : Prop :=
  ∀ a, block = some a → a.WellFormed ∧ a.nrows = sizes.rowSize i ∧ a.ncols = sizes.colSize j

lemma fits_of_not_misplaced {block : Option (SparseMatrix α)}
    (hwf : ∀ a, block = some a → a.WellFormed)
    (h : ∀ err, ¬ Misplaced sizes (i, j, block) err) : sizes.Fits i j block := by
  rintro a rfl
  by_cases hrows : a.nrows = sizes.rowSize i
  · refine ⟨hwf a rfl, hrows, ?_⟩
    by_cases hcols : a.ncols = sizes.colSize j
    · exact hcols
    · exact absurd (.cols hrows hcols) (h _)
  · exact absurd (.rows hrows) (h _)

/-- The entries of a block at their positions in the assembled matrix. -/
def placed (sizes : BlockSizes) (i j : Nat) : Option (SparseMatrix α) → List (Nat × Nat × α)
  | some a => a.triplets.map fun (r, c, x) =>
    (position sizes.rowSizes i r, position sizes.colSizes j c, x)
  | none => []

/-- The entries of one row of a block at their columns in the assembled matrix. -/
def segment (sizes : BlockSizes) (r j : Nat) : Option (SparseMatrix α) → List (Nat × α)
  | some a => (a.row r).map fun (c, x) => (position sizes.colSizes j c, x)
  | none => []

/-- The entries of one row of blocks that stand side by side. -/
def placedRow (sizes : BlockSizes) (r : Nat) (blocks : List (Option (SparseMatrix α))) :
    List (Nat × α) :=
  blocks.zipIdx.flatMap fun p => sizes.segment r p.2 p.1

section Placed
variable {block : Option (SparseMatrix α)}

lemma lt_of_mem_placed (h : sizes.Fits i j block) {t : Nat × Nat × α}
    (ht : t ∈ sizes.placed i j block) : t.1 < sizes.totalRows ∧ t.2.1 < sizes.totalCols := by
  cases block with
  | none => exact absurd ht List.not_mem_nil
  | some a =>
    obtain ⟨ha, hrows, hcols⟩ := h a rfl
    obtain ⟨⟨r, c, x⟩, hmem, rfl⟩ := List.mem_map.1 ht
    obtain ⟨hr, hc⟩ := SparseMatrix.lt_of_mem_triplets ha hmem
    rw [hrows] at hr
    rw [hcols] at hc
    exact ⟨position_lt_sum hr, position_lt_sum hc⟩

lemma length_placed (sizes : BlockSizes) (i j : Nat) (block : Option (SparseMatrix α)) :
    (sizes.placed i j block).length = (block.map SparseMatrix.nnz).getD 0 := by
  cases block with
  | none => rfl
  | some a => exact (List.length_map ..).trans a.length_triplets

/-- A row of the assembled matrix meets only the blocks of its block row. -/
lemma rowAmong_placed {i' r : Nat} (h : sizes.Fits i' j block) (hr : r < sizes.rowSize i) :
    SparseMatrix.rowAmong (sizes.placed i' j block) (position sizes.rowSizes i r) =
      if i' = i then sizes.segment r j block else [] := by
  cases block with
  | none => exact (ite_self _).symm
  | some a =>
    obtain ⟨ha, hrows, _⟩ := h a rfl
    have hlt : ∀ t ∈ a.triplets, t.1 < sizes.rowSize i' := fun t ht =>
      hrows ▸ (SparseMatrix.lt_of_mem_triplets ha ht).1
    split
    · rename_i hi
      subst hi
      rw [segment, ← SparseMatrix.rowAmong_triplets]
      have hf : ∀ t ∈ a.triplets,
          position sizes.rowSizes i' t.1 = position sizes.rowSizes i' r ↔ t.1 = r := by
        intro t ht
        rw [position_inj (hlt t ht) hr]
        simp
      exact SparseMatrix.rowAmong_map (g := fun e => (position sizes.colSizes j e.1, e.2)) hf
    · rename_i hi
      apply SparseMatrix.rowAmong_eq_nil
      intro t ht heq
      obtain ⟨u, hu, rfl⟩ := List.mem_map.1 ht
      exact hi ((position_inj (hlt u hu) hr).1 heq).1

lemma mem_segment {r : Nat} (h : sizes.Fits i j block) {e : Nat × α}
    (he : e ∈ sizes.segment r j block) :
    ∃ c, c < sizes.colSize j ∧ e.1 = position sizes.colSizes j c := by
  cases block with
  | none => exact absurd he List.not_mem_nil
  | some a =>
    obtain ⟨ha, _, hcols⟩ := h a rfl
    obtain ⟨⟨c, x⟩, hmem, rfl⟩ := List.mem_map.1 he
    exact ⟨c, hcols ▸ (ha.row r).2 c (List.mem_map_of_mem hmem), rfl⟩

lemma segment_ascending {r : Nat} (h : sizes.Fits i j block) :
    Ascending ((sizes.segment r j block).map Prod.fst) := by
  cases block with
  | none => exact List.Pairwise.nil
  | some a =>
    have hrow : ((a.row r).map Prod.fst).Pairwise (· < ·) := ((h a rfl).1.row r).1
    rw [List.pairwise_map] at hrow
    rw [segment, List.map_map, Ascending, List.pairwise_map]
    exact hrow.imp fun hlt => Nat.add_lt_add_left hlt _

end Placed

section PlacedRow
variable {blocks : List (Option (SparseMatrix α))}

lemma pairwise_zipIdx {β : Type} (xs : List β) : xs.zipIdx.Pairwise fun p q => p.2 < q.2 := by
  have h := List.pairwise_lt_range' (s := 0) (n := xs.length)
  rwa [← List.zipIdx_map_snd, List.pairwise_map] at h

/-- The columns of blocks that stand side by side ascend from one block to the next. -/
lemma rowWellFormed_placedRow (h : ∀ p ∈ blocks.zipIdx, sizes.Fits i p.2 p.1) (r : Nat) :
    SparseMatrix.RowWellFormed sizes.totalCols (sizes.placedRow r blocks) := by
  constructor
  · rw [placedRow, List.map_flatMap, Ascending, List.pairwise_flatMap]
    refine ⟨fun p hp => segment_ascending (h p hp), ?_⟩
    refine (pairwise_zipIdx blocks).imp_of_mem fun hp hq hlt c hc d hd => ?_
    obtain ⟨e, he, rfl⟩ := List.mem_map.1 hc
    obtain ⟨e', he', rfl⟩ := List.mem_map.1 hd
    obtain ⟨k, hk, hek⟩ := mem_segment (h _ hp) he
    obtain ⟨k', _, hek'⟩ := mem_segment (h _ hq) he'
    rw [hek, hek']
    exact position_lt_position hlt hk
  · intro c hc
    obtain ⟨e, he, rfl⟩ := List.mem_map.1 hc
    obtain ⟨p, hp, he⟩ := List.mem_flatMap.1 he
    obtain ⟨k, hk, hek⟩ := mem_segment (h p hp) he
    rw [hek]
    exact position_lt_sum hk

end PlacedRow

section Concatenate
variable {blocks : List (Option (SparseMatrix α))}

/-- The blocks at their places. -/
def grid (sizes : BlockSizes) (blocks : List (Option (SparseMatrix α))) :
    Grid (Option (SparseMatrix α)) := ⟨sizes.rowSizes.length, sizes.colSizes.length, blocks⟩

/-- The entries of all blocks at their positions in the assembled matrix. -/
def placedAll (sizes : BlockSizes) (blocks : List (Option (SparseMatrix α))) :
    List (Nat × Nat × α) :=
  (sizes.grid blocks).entries.flatMap fun (i, j, block) => sizes.placed i j block

/-- Every block fits into its place. -/
def AllFit (sizes : BlockSizes) (blocks : List (Option (SparseMatrix α))) : Prop :=
  (sizes.grid blocks).WellFormed ∧
    ∀ i j block, (sizes.grid blocks).get? i j = some block → sizes.Fits i j block

lemma AllFit.of_mem_entries (h : sizes.AllFit blocks) {block : Option (SparseMatrix α)}
    (hmem : (i, j, block) ∈ (sizes.grid blocks).entries) : sizes.Fits i j block :=
  h.2 i j block ((Grid.mem_entries_iff h.1).1 hmem)

lemma lt_of_mem_placedAll (h : sizes.AllFit blocks) {t : Nat × Nat × α}
    (ht : t ∈ sizes.placedAll blocks) : t.1 < sizes.totalRows ∧ t.2.1 < sizes.totalCols := by
  obtain ⟨⟨i, j, block⟩, hmem, ht⟩ := List.mem_flatMap.1 ht
  exact lt_of_mem_placed (h.of_mem_entries hmem) ht

lemma AllFit.blockRow (h : sizes.AllFit blocks) {i : Nat} (hi : i < sizes.rowSizes.length) :
    ∀ p ∈ ((sizes.grid blocks).blockRow i).zipIdx, sizes.Fits i p.2 p.1 := by
  intro p hp
  rw [List.mem_zipIdx_iff_getElem?, Grid.getElem?_blockRow _ hi] at hp
  exact h.2 i p.2 p.1 hp

lemma rowAmong_blockRow (h : sizes.AllFit blocks) {i' r : Nat} (hi' : i' < sizes.rowSizes.length)
    (hr : r < sizes.rowSize i) :
    SparseMatrix.rowAmong ((((sizes.grid blocks).blockRow i').zipIdx.map fun (x, j) =>
      (i', j, x)).flatMap fun (i, j, block) => sizes.placed i j block)
      (position sizes.rowSizes i r) =
      if i' = i then sizes.placedRow r ((sizes.grid blocks).blockRow i') else [] := by
  rw [List.flatMap_map, SparseMatrix.rowAmong_flatMap,
    List.flatMap_congr fun p hp => rowAmong_placed (h.blockRow hi' p hp) hr]
  split
  · rfl
  · simp

/-- The entries placed in a row of the assembled matrix are those of one row of blocks. -/
lemma rowAmong_placedAll (h : sizes.AllFit blocks) {r : Nat} (hr : r < sizes.rowSize i) :
    SparseMatrix.rowAmong (sizes.placedAll blocks) (position sizes.rowSizes i r) =
      sizes.placedRow r ((sizes.grid blocks).blockRow i) := by
  have hi : i < sizes.rowSizes.length := lt_length_of_lt hr
  -- only the block row that holds the position contributes to it
  have hrows : ∀ p ∈ (sizes.grid blocks).rows.zipIdx,
      SparseMatrix.rowAmong ((p.1.zipIdx.map fun (x, j) => (p.2, j, x)).flatMap
        fun (i, j, block) => sizes.placed i j block) (position sizes.rowSizes i r) =
        if p.2 = 0 + i then sizes.placedRow r p.1 else [] := by
    rintro ⟨row, i'⟩ hp
    obtain ⟨hi', rfl⟩ := Grid.mem_zipIdx_rows_iff.1 hp
    rw [rowAmong_blockRow h hi' hr, Nat.zero_add]
  rw [placedAll, Grid.entries_eq h.1, List.flatMap_assoc, SparseMatrix.rowAmong_flatMap,
    List.flatMap_congr hrows, SparseMatrix.flatMap_zipIdx_ite, Grid.getElem?_rows hi]
  rfl

lemma ascending_rowAmong_placedAll (h : sizes.AllFit blocks) (n : Nat) :
    Ascending ((SparseMatrix.rowAmong (sizes.placedAll blocks) n).map Prod.fst) := by
  by_cases hn : n < sizes.totalRows
  · obtain ⟨i, r, hr, rfl⟩ := exists_position hn
    rw [rowAmong_placedAll h hr]
    exact (rowWellFormed_placedRow (h.blockRow (lt_length_of_lt hr)) r).1
  · have hnone : ∀ t ∈ sizes.placedAll blocks, t.1 ≠ n :=
      fun t ht heq => hn (heq ▸ (lt_of_mem_placedAll h ht).1)
    rw [SparseMatrix.rowAmong_eq_nil hnone]
    exact List.Pairwise.nil

lemma getD_rowOffsets (hi : i ≤ sizes.rowSizes.length) (r : Nat) :
    r + sizes.rowOffsets[i]?.getD 0 = position sizes.rowSizes i r := by
  rw [rowOffsets, getD_cumulative hi, Nat.add_comm, position]

lemma getD_colOffsets (hj : j ≤ sizes.colSizes.length) (c : Nat) :
    c + sizes.colOffsets[j]?.getD 0 = position sizes.colSizes j c := by
  rw [colOffsets, getD_cumulative hj, Nat.add_comm, position]

/-- What is placed for a cell of the grid. -/
def placeCell (sizes : BlockSizes) :
    Nat × Nat × Option (SparseMatrix α) → Except Error (List (Nat × Nat × α))
  | (i, j, some a) => sizes.placedTriplets sizes.rowOffsets sizes.colOffsets i j a
  | (_, _, none) => .ok []

lemma placeCell_eq_error_iff {p : Nat × Nat × Option (SparseMatrix α)} {err : Error} :
    sizes.placeCell p = .error err ↔ Misplaced sizes p err := by
  obtain ⟨i, j, block⟩ := p
  cases block with
  | none =>
    constructor
    · intro h
      cases h
    · intro h
      cases h
  | some a =>
    constructor
    · intro h
      rw [placeCell, placedTriplets] at h
      split at h
      · rename_i hrows
        cases h
        exact .rows hrows
      · rename_i hrows
        split at h
        · rename_i hcols
          cases h
          exact .cols (not_not.1 hrows) hcols
        · cases h
    · intro h
      rw [placeCell, placedTriplets]
      cases h with
      | rows h => rw [if_pos h]
      | cols hrows h => rw [if_neg (not_not.2 hrows), if_pos h]

lemma placeCell_of_fits {block : Option (SparseMatrix α)} (hi : i < sizes.rowSizes.length)
    (hj : j < sizes.colSizes.length) (h : sizes.Fits i j block) :
    sizes.placeCell (i, j, block) = .ok (sizes.placed i j block) := by
  cases block with
  | none => rfl
  | some a =>
    obtain ⟨_, hrows, hcols⟩ := h a rfl
    rw [placeCell, placedTriplets, if_neg (not_not.2 hrows), if_neg (not_not.2 hcols)]
    simp only [getD_rowOffsets (Nat.le_of_lt hi), getD_colOffsets (Nat.le_of_lt hj)]
    rfl

/-- The rows of the assembled matrix, one block row after the other. -/
lemma rows_of_allFit (h : sizes.AllFit blocks) :
    (SparseMatrix.ofRowsAmong sizes.totalRows sizes.totalCols (sizes.placedAll blocks)).rows =
      sizes.rowSizes.zipIdx.flatMap fun (n, i) => (List.range n).map fun r =>
        sizes.placedRow r ((sizes.grid blocks).blockRow i) := by
  rw [SparseMatrix.ofRowsAmong, totalRows, total_eq_sum, map_range_sum]
  apply List.flatMap_congr
  rintro ⟨n, i⟩ hn
  rw [List.mem_zipIdx_iff_getElem?] at hn
  apply List.map_congr_left
  intro r hr
  apply rowAmong_placedAll h
  rw [rowSize, hn]
  exact List.mem_range.1 hr

lemma mem_placedAll_iff (h : (sizes.grid blocks).WellFormed) {t : Nat × Nat × α} :
    t ∈ sizes.placedAll blocks ↔ ∃ i j a r c x, (sizes.grid blocks).get? i j = some (some a) ∧
      (r, c, x) ∈ a.triplets ∧
      t = (position sizes.rowSizes i r, position sizes.colSizes j c, x) := by
  rw [placedAll, List.mem_flatMap]
  constructor
  · rintro ⟨⟨i, j, block⟩, hmem, ht⟩
    cases block with
    | none => exact absurd ht List.not_mem_nil
    | some a =>
      obtain ⟨⟨r, c, x⟩, hrcx, rfl⟩ := List.mem_map.1 ht
      exact ⟨i, j, a, r, c, x, (Grid.mem_entries_iff h).1 hmem, hrcx, rfl⟩
  · rintro ⟨i, j, a, r, c, x, hget, hmem, rfl⟩
    exact ⟨(i, j, some a), (Grid.mem_entries_iff h).2 hget, List.mem_map.2 ⟨(r, c, x), hmem, rfl⟩⟩

lemma length_placedAll (sizes : BlockSizes) (blocks : List (Option (SparseMatrix α))) :
    (sizes.placedAll blocks).length =
      (blocks.map fun block => (block.map SparseMatrix.nnz).getD 0).sum := by
  rw [placedAll, List.length_flatMap]
  simp only [length_placed]
  exact congrArg List.sum
    (Grid.map_entries (fun block => (block.map SparseMatrix.nnz).getD 0) (sizes.grid blocks))

lemma allFit_of_not_misplaced (hwf : ∀ a, some a ∈ blocks → a.WellFormed)
    (hlen : (sizes.grid blocks).WellFormed)
    (h : ∀ p ∈ (sizes.grid blocks).entries, ∀ err, ¬ Misplaced sizes p err) :
    sizes.AllFit blocks := by
  refine ⟨hlen, fun i j block hget => ?_⟩
  refine fits_of_not_misplaced (fun a ha => hwf a ?_) (h _ ((Grid.mem_entries_iff hlen).2 hget))
  obtain ⟨_, _, hmem⟩ := Grid.get?_eq_some_iff.1 hget
  exact ha ▸ List.mem_of_getElem? hmem

variable [Add α]

lemma concatenate_eq (h : (sizes.grid blocks).WellFormed) (hb : sizes.Bounded) :
    sizes.concatenate blocks = (do
      let placed ← (sizes.grid blocks).entries.mapM sizes.placeCell
      SparseMatrix.ofTriplets sizes.totalRows sizes.totalCols placed.flatten) := by
  have hstep : (fun p : Nat × Nat × Option (SparseMatrix α) => match p.2.2 with
      | some a => sizes.placedTriplets sizes.rowOffsets sizes.colOffsets p.1 p.2.1 a
      | none => pure []) = sizes.placeCell := by
    funext ⟨i, j, block⟩
    cases block <;> rfl
  rw [← hstep]
  refine (if_pos h).trans ?_
  rw [Size.boundaries_of_lt hb.1, Size.boundaries_of_lt hb.2, Size.sum_of_lt hb.1,
    Size.sum_of_lt hb.2]
  rfl

/-- Sizes that cannot be added up are met before the first block. -/
theorem concatenate_of_not_bounded (h : (sizes.grid blocks).WellFormed) (hb : ¬ sizes.Bounded) :
    sizes.concatenate blocks = .error (.sizeOverflow .add) := by
  refine (if_pos h).trans ?_
  by_cases hrows : sizes.totalRows < Size.bound
  · have hcols : Size.bound ≤ sizes.totalCols := Nat.le_of_not_lt fun hlt => hb ⟨hrows, hlt⟩
    rw [Size.boundaries_of_lt hrows, Size.boundaries_of_le hcols]
    rfl
  · rw [Size.boundaries_of_le (Nat.le_of_not_lt hrows)]
    rfl

/-- Blocks that all fit are assembled from their entries as they are. -/
theorem concatenate_of_allFit (h : sizes.AllFit blocks) (hb : sizes.Bounded) :
    sizes.concatenate blocks = .ok
      (SparseMatrix.ofRowsAmong sizes.totalRows sizes.totalCols (sizes.placedAll blocks)) := by
  have hplaced : (sizes.grid blocks).entries.mapM sizes.placeCell =
      .ok ((sizes.grid blocks).entries.map fun (i, j, block) => sizes.placed i j block) := by
    apply Traversal.mapM_eq_ok_of_forall
    rintro ⟨i, j, block⟩ hmem
    obtain ⟨hi, hj, _⟩ := Grid.get?_eq_some_iff.1 ((Grid.mem_entries_iff h.1).1 hmem)
    exact placeCell_of_fits hi hj (h.of_mem_entries hmem)
  rw [concatenate_eq h.1 hb, hplaced]
  exact SparseMatrix.ofTriplets_of_ascending (fun t ht => lt_of_mem_placedAll h ht)
    (ascending_rowAmong_placedAll h)

lemma concatenate_eq_error_iff (hwf : ∀ a, some a ∈ blocks → a.WellFormed)
    (hlen : (sizes.grid blocks).WellFormed) (hb : sizes.Bounded) {err : Error} :
    sizes.concatenate blocks = .error err ↔
      First (Misplaced sizes) (sizes.grid blocks).entries err := by
  have hcell : (fun p e => sizes.placeCell p = .error e) = Misplaced sizes (α := α) :=
    funext fun p => funext fun e => propext placeCell_eq_error_iff
  rw [concatenate_eq hlen hb, Traversal.bind_eq_error_iff, Traversal.mapM_eq_error_iff, hcell]
  constructor
  · rintro (h | ⟨placed, hplaced, h⟩)
    · exact h
    · have hnone : ∀ p ∈ (sizes.grid blocks).entries, ∀ e, ¬ Misplaced sizes p e := by
        intro p hp e he
        obtain ⟨ts, _, hts⟩ := Traversal.exists_of_mapM_eq_ok hplaced hp
        exact nomatch hts.symm.trans (placeCell_eq_error_iff.2 he)
      have hok := concatenate_of_allFit (allFit_of_not_misplaced hwf hlen hnone) hb
      rw [concatenate_eq hlen hb, hplaced] at hok
      exact nomatch h.symm.trans hok
  · exact .inl

/-- A number of blocks that is not the number of places is reported, if places can be counted. -/
lemma concatenate_of_length_ne (h : blocks.length ≠ sizes.rowSizes.length * sizes.colSizes.length) :
    sizes.concatenate blocks = (do
      let expected ← Size.mul sizes.rowSizes.length sizes.colSizes.length
      .error (.raggedGrid 0 expected blocks.length)) := if_neg h

/-- There are more places than can be counted, and this is met before anything else. -/
lemma concatenate_of_uncounted
    (h : blocks.length ≠ sizes.rowSizes.length * sizes.colSizes.length)
    (hover : Size.bound ≤ sizes.rowSizes.length * sizes.colSizes.length) :
    sizes.concatenate blocks = .error (.sizeOverflow .multiply) := by
  rw [concatenate_of_length_ne h, Size.mul, Size.check_of_le hover]
  rfl

/-- The number of blocks is checked before anything else. -/
lemma concatenate_eq_raggedGrid_iff (hwf : ∀ a, some a ∈ blocks → a.WellFormed) :
    sizes.concatenate blocks = .error (.raggedGrid 0
        (sizes.rowSizes.length * sizes.colSizes.length) blocks.length) ↔
      blocks.length ≠ sizes.rowSizes.length * sizes.colSizes.length ∧
        sizes.rowSizes.length * sizes.colSizes.length < Size.bound := by
  constructor
  · intro h
    by_cases hlen : blocks.length = sizes.rowSizes.length * sizes.colSizes.length
    · by_cases hb : sizes.Bounded
      · obtain ⟨p, _, hp⟩ := ((concatenate_eq_error_iff hwf hlen hb).1 h).mem
        cases hp
      · rw [concatenate_of_not_bounded hlen hb] at h
        cases h
    · refine ⟨hlen, Nat.lt_of_not_le fun hover => ?_⟩
      rw [concatenate_of_uncounted hlen hover] at h
      cases h
  · rintro ⟨hlen, hlt⟩
    rw [concatenate_of_length_ne hlen, Size.mul, Size.check_of_lt hlt]
    rfl

/-- Concatenation fails if the number of blocks is wrong, and stops if the places cannot be counted
or if the row sizes or the column sizes cannot be added up. Otherwise it fails with the first
misplaced block, and if there is none, the result is a well-formed matrix of the total size, which
stores each stored entry of each block once, at its offset position. -/
theorem concatenate_outcome (sizes : BlockSizes) (blocks : List (Option (SparseMatrix α)))
    (hwf : ∀ a, some a ∈ blocks → a.WellFormed) :
    (sizes.concatenate blocks = .error (.raggedGrid 0
        (sizes.rowSizes.length * sizes.colSizes.length) blocks.length) ↔
      blocks.length ≠ sizes.rowSizes.length * sizes.colSizes.length ∧
        sizes.rowSizes.length * sizes.colSizes.length < Size.bound) ∧
    (blocks.length ≠ sizes.rowSizes.length * sizes.colSizes.length →
      Size.bound ≤ sizes.rowSizes.length * sizes.colSizes.length →
      sizes.concatenate blocks = .error (.sizeOverflow .multiply)) ∧
    (blocks.length = sizes.rowSizes.length * sizes.colSizes.length → ¬ sizes.Bounded →
      sizes.concatenate blocks = .error (.sizeOverflow .add)) ∧
    (blocks.length = sizes.rowSizes.length * sizes.colSizes.length → sizes.Bounded →
      (∀ err, sizes.concatenate blocks = .error err ↔
        First (Misplaced sizes) (sizes.grid blocks).entries err) ∧
      ((∀ p ∈ (sizes.grid blocks).entries, ∀ err, ¬ Misplaced sizes p err) →
        ∃ m, sizes.concatenate blocks = .ok m ∧ m.WellFormed ∧
          m.shape = .matrix sizes.rowSizes.sum sizes.colSizes.sum ∧
          (∀ t, t ∈ m.triplets ↔ ∃ i j a r c x, (sizes.grid blocks).get? i j = some (some a) ∧
            (r, c, x) ∈ a.triplets ∧
            t = ((sizes.rowSizes.take i).sum + r, (sizes.colSizes.take j).sum + c, x)) ∧
          m.nnz = (blocks.map fun block => (block.map SparseMatrix.nnz).getD 0).sum)) := by
  refine ⟨concatenate_eq_raggedGrid_iff hwf, concatenate_of_uncounted,
    fun hlen hb => concatenate_of_not_bounded hlen hb,
    fun hlen hb => ⟨fun err => concatenate_eq_error_iff hwf hlen hb, fun hnone => ?_⟩⟩
  have h := allFit_of_not_misplaced hwf hlen hnone
  have hrows : ∀ t ∈ sizes.placedAll blocks, t.1 < sizes.totalRows :=
    fun t ht => (lt_of_mem_placedAll h ht).1
  have hcols : ∀ t ∈ sizes.placedAll blocks, t.2.1 < sizes.totalCols :=
    fun t ht => (lt_of_mem_placedAll h ht).2
  refine ⟨_, concatenate_of_allFit h hb,
    SparseMatrix.wellFormed_ofRowsAmong hcols (ascending_rowAmong_placedAll h),
    SparseMatrix.shape_ofRowsAmong .., fun t => ?_, ?_⟩
  · rw [SparseMatrix.mem_triplets_ofRowsAmong hrows]
    exact mem_placedAll_iff hlen
  · rw [SparseMatrix.nnz_ofRowsAmong hrows, length_placedAll]

/-- Two blocks on the antidiagonal, one of which stores a zero. -/
def antidiagonal : List (Option (SparseMatrix Nat)) :=
  [none, some ⟨1, [[(0, 7)]]⟩, some ⟨2, [[(0, 1), (1, 0)], []]⟩, none]

lemma not_misplaced_antidiagonal : ∀ p ∈ (grid ⟨[1, 2], [2, 1]⟩ antidiagonal).entries,
    ∀ err, ¬ Misplaced ⟨[1, 2], [2, 1]⟩ p err := by
  have hentries : (grid ⟨[1, 2], [2, 1]⟩ antidiagonal).entries =
      [(0, 0, none), (0, 1, some ⟨1, [[(0, 7)]]⟩), (1, 0, some ⟨2, [[(0, 1), (1, 0)], []]⟩),
        (1, 1, none)] := rfl
  intro p hp err h
  rw [hentries] at hp
  simp only [List.mem_cons, List.not_mem_nil, or_false] at hp
  rcases hp with rfl | rfl | rfl | rfl
  · cases h
  · cases h with
    | rows h => exact h rfl
    | cols _ h => exact h rfl
  · cases h with
    | rows h => exact h rfl
    | cols _ h => exact h rfl
  · cases h

theorem concatenate_outcome_antidiagonal : (∀ a, some a ∈ antidiagonal → a.WellFormed) ∧
    antidiagonal.length = 2 * 2 ∧ Bounded ⟨[1, 2], [2, 1]⟩ ∧
    ∃ m, concatenate ⟨[1, 2], [2, 1]⟩ antidiagonal = .ok m ∧ m.WellFormed ∧
      m.shape = .matrix 3 3 ∧ m.nnz = 3 := by
  have hwf : ∀ a, some a ∈ antidiagonal → a.WellFormed := by
    intro a ha
    simp only [antidiagonal, List.mem_cons, Option.some.injEq, reduceCtorEq, List.not_mem_nil,
      or_false, false_or] at ha
    rcases ha with rfl | rfl <;> decide
  have hb : Bounded ⟨[1, 2], [2, 1]⟩ := by decide
  obtain ⟨_, _, _, hassembled⟩ := concatenate_outcome ⟨[1, 2], [2, 1]⟩ antidiagonal hwf
  obtain ⟨m, hm, hmwf, hshape, _, hnnz⟩ := (hassembled rfl hb).2 not_misplaced_antidiagonal
  exact ⟨hwf, rfl, hb, m, hm, hmwf, hshape, hnnz⟩

/-- Two block columns without rows, whose widths add up to more than a size can hold. -/
def overWide : BlockSizes := ⟨[0], [18446744073709551615, 1]⟩

/-- The number of blocks is right and none of them is misplaced, but there is no result. -/
theorem concatenate_overWide :
    (∀ a, some a ∈ [none, (none : Option (SparseMatrix Nat))] → a.WellFormed) ∧
    [none, (none : Option (SparseMatrix Nat))].length =
      overWide.rowSizes.length * overWide.colSizes.length ∧
    (∀ p ∈ (overWide.grid [none, (none : Option (SparseMatrix Nat))]).entries,
      ∀ err, ¬ Misplaced overWide p err) ∧
    overWide.concatenate [none, (none : Option (SparseMatrix Nat))] =
      .error (.sizeOverflow .add) := by
  have hentries : (overWide.grid [none, (none : Option (SparseMatrix Nat))]).entries =
      [(0, 0, none), (0, 1, none)] := rfl
  refine ⟨fun a ha => ?_, rfl, fun p hp err h => ?_,
    concatenate_of_not_bounded rfl (by decide)⟩
  · simp at ha
  · rw [hentries] at hp
    simp only [List.mem_cons, List.not_mem_nil, or_false] at hp
    rcases hp with rfl | rfl <;> cases h

end Concatenate

end BlockSparse.BlockSizes
