import BlockSparse.Proofs.Block.Sizes
import Mathlib.Data.List.Sort
import Mathlib.Data.Set.Basic

/-! Which sizes are inferred. A block row has a size when the heights of its cells with a shape form
a set of one number, and a block column when the widths of its matrices do. Where a set is empty or
has several members, the first such place is reported together with its set. -/
namespace BlockSparse

namespace BlockSizes
variable {axis : Axis} {index n : Nat} {found : List (Option Nat)} {err : Error}

lemma uniqueSize_eq_ok_iff : uniqueSize axis index found = .ok n ↔ {m | some m ∈ found} = {n} := by
  constructor
  · intro h
    ext m
    constructor
    · exact fun hm => eq_of_uniqueSize h hm
    · rintro rfl
      exact mem_of_uniqueSize h
  · intro h
    have hmem : ∀ m, some m ∈ found ↔ m = n := fun m => Set.ext_iff.1 h m
    exact uniqueSize_of_forall ((hmem n).2 rfl) fun m hm => (hmem m).1 hm

/-- Without a single size, the error lists what was found, in ascending order. -/
lemma uniqueSize_eq_error_iff : uniqueSize axis index found = .error err ↔
    (∀ m, {k | some k ∈ found} ≠ {m}) ∧ ∃ l, Ascending l ∧ (∀ m, m ∈ l ↔ some m ∈ found) ∧
      err = .inconsistentSizes axis index l := by
  have hmem : ∀ m, m ∈ Ascending.ofList (found.filterMap id) ↔ some m ∈ found := by
    intro m
    rw [Ascending.mem_ofList, List.mem_filterMap]
    simp
  cases h : uniqueSize axis index found with
  | ok m => simp [uniqueSize_eq_ok_iff.1 h]
  | error err' =>
    have hnone : ∀ m, {k | some k ∈ found} ≠ {m} := fun m hm => by
      rw [uniqueSize_eq_ok_iff.2 hm] at h
      cases h
    have herr : err' = .inconsistentSizes axis index (Ascending.ofList (found.filterMap id)) := by
      unfold uniqueSize at h
      split at h
      · cases h
      · cases h
        rfl
    constructor
    · intro he
      cases he
      exact ⟨hnone, _, Ascending.ofList_ascending _, hmem, herr⟩
    · rintro ⟨-, l, hl, hlmem, rfl⟩
      have hlist : l = Ascending.ofList (found.filterMap id) :=
        List.Pairwise.eq_of_mem_iff hl (Ascending.ofList_ascending _) fun m =>
          (hlmem m).trans (hmem m).symm
      rw [herr, hlist]

/-- The search for sizes fails at the first place that has none. -/
lemma sizesFrom_eq_error_iff {size : Nat → Except Error Nat} {start count : Nat} :
    sizesFrom size start count = .error err ↔
      ∃ k < count, size (start + k) = .error err ∧ ∀ l < k, ∃ n, size (start + l) = .ok n := by
  induction count generalizing start with
  | zero => simp [sizesFrom]
  | succ count ih =>
    rw [sizesFrom, Traversal.bind_eq_error_iff]
    constructor
    · rintro (h | ⟨n, hn, h⟩)
      · exact ⟨0, Nat.succ_pos count, h, fun l hl => absurd hl (Nat.not_lt_zero l)⟩
      · obtain h | ⟨_, _, h⟩ := Traversal.bind_eq_error_iff.1 h
        · obtain ⟨k, hk, herr, hbefore⟩ := ih.1 h
          refine ⟨k + 1, Nat.succ_lt_succ hk, by rwa [← Nat.add_right_comm] at herr, ?_⟩
          intro l hl
          cases l with
          | zero => exact ⟨n, hn⟩
          | succ l =>
            rw [← Nat.add_assoc, Nat.add_right_comm]
            exact hbefore l (Nat.lt_of_succ_lt_succ hl)
        · cases h
    · rintro ⟨k, hk, herr, hbefore⟩
      cases k with
      | zero => exact .inl herr
      | succ k =>
        obtain ⟨n, hn⟩ := hbefore 0 (Nat.succ_pos k)
        refine .inr ⟨n, hn, Traversal.bind_eq_error_iff.2 (.inl (ih.2 ⟨k, by omega, ?_, ?_⟩))⟩
        · rwa [Nat.add_right_comm]
        · intro l hl
          rw [Nat.add_right_comm]
          exact hbefore (l + 1) (Nat.succ_lt_succ hl)

section Places
variable {count : Nat} {found : Nat → List (Option Nat)} {sets : Nat → Set Nat}
  (h : ∀ k < count, {m | some m ∈ found k} = sets k)
include h

/-- Sizes are found when there is exactly one at every place. -/
lemma sizesFrom_uniqueSize_eq_ok_iff {sizes : List Nat} :
    sizesFrom (fun k => uniqueSize axis k (found k)) 0 count = .ok sizes ↔
      sizes.length = count ∧ ∀ k < count, sets k = {sizes[k]?.getD 0} := by
  rw [sizesFrom_eq_ok_iff]
  refine and_congr_right fun _ => forall₂_congr fun k hk => ?_
  rw [uniqueSize_eq_ok_iff, h k hk]

/-- Otherwise the error lists what was found at the first place where it is not exactly one size. -/
lemma sizesFrom_uniqueSize_eq_error_iff :
    sizesFrom (fun k => uniqueSize axis k (found k)) 0 count = .error err ↔
      ∃ k < count, (∀ l < k, ∃ m, sets l = {m}) ∧ (∀ m, sets k ≠ {m}) ∧
        ∃ l, Ascending l ∧ (∀ m, m ∈ l ↔ m ∈ sets k) ∧ err = .inconsistentSizes axis k l := by
  rw [sizesFrom_eq_error_iff]
  refine exists_congr fun k => and_congr_right fun hk => ?_
  have hbefore : (∀ l < k, ∃ n, uniqueSize axis (0 + l) (found (0 + l)) = .ok n) ↔
      ∀ l < k, ∃ m, sets l = {m} := by
    refine forall₂_congr fun l hl => exists_congr fun n => ?_
    rw [Nat.zero_add, uniqueSize_eq_ok_iff, h l (Nat.lt_trans hl hk)]
  rw [hbefore, Nat.zero_add, uniqueSize_eq_error_iff, and_comm, h k hk]
  simp only [← h k hk, Set.mem_ofPred_eq]

lemma exists_sizesFrom_uniqueSize_iff :
    (∃ sizes, sizesFrom (fun k => uniqueSize axis k (found k)) 0 count = .ok sizes) ↔
      ∀ k < count, ∃ m, sets k = {m} := by
  constructor
  · rintro ⟨sizes, hsizes⟩ k hk
    exact ⟨_, ((sizesFrom_uniqueSize_eq_ok_iff h).1 hsizes).2 k hk⟩
  · intro hone
    cases hsizes : sizesFrom (fun k => uniqueSize axis k (found k)) 0 count with
    | ok sizes => exact ⟨sizes, rfl⟩
    | error err =>
      obtain ⟨k, hk, _, hnone, _⟩ := (sizesFrom_uniqueSize_eq_error_iff h).1 hsizes
      obtain ⟨m, hm⟩ := hone k hk
      exact absurd hm (hnone m)

end Places

lemma ofShapes_eq_error_iff_sizesFrom {shapes : Grid (Option Shape)} :
    ofShapes shapes = .error err ↔
      sizesFrom (fun i => uniqueSize .row i ((shapes.blockRow i).map (·.map Shape.rows))) 0
        shapes.numRows = .error err ∨
      (∃ rowSizes, sizesFrom (fun i =>
        uniqueSize .row i ((shapes.blockRow i).map (·.map Shape.rows))) 0
          shapes.numRows = .ok rowSizes) ∧
        sizesFrom (fun j => uniqueSize .column j ((shapes.blockCol j).map (·.bind Shape.cols?))) 0
          shapes.numCols = .error err := by
  rw [ofShapes, Traversal.bind_eq_error_iff, ← exists_and_right]
  refine or_congr_right (exists_congr fun rowSizes => and_congr_right fun _ => ?_)
  rw [Traversal.bind_eq_error_iff]
  constructor
  · rintro (h | ⟨_, _, h⟩)
    · exact h
    · cases h
  · exact .inl

end BlockSizes

namespace BlockMatrix
variable {α : Type} {b : BlockMatrix α} {shapes : Grid (Option Shape)} {err : Error} {i j : Nat}

/-- The heights of the cells of a block row that have a shape. -/
def heights (b : BlockMatrix α) (i : Nat) : Set Nat :=
  {m | ∃ j e t, b.get? i j = some e ∧ e.shape = .ok (some t) ∧ t.rows = m}

/-- The widths of the cells of a block column that are matrices. -/
def widths (b : BlockMatrix α) (j : Nat) : Set Nat :=
  {m | ∃ i e t, b.get? i j = some e ∧ e.shape = .ok (some t) ∧ t.cols? = some m}

/-- The error about the first block row, or about the first block column when all block rows have a
size, in which not exactly one size is found. It lists what is found there in ascending order. -/
inductive Undetermined (b : BlockMatrix α) : Error → Prop
  | row {i : Nat} {l : List Nat} (hi : i < b.numRows) (before : ∀ k < i, ∃ m, b.heights k = {m})
    (here : ∀ m, b.heights i ≠ {m}) (hl : Ascending l) (hmem : ∀ m, m ∈ l ↔ m ∈ b.heights i) :
    Undetermined b (.inconsistentSizes .row i l)
  | column {j : Nat} {l : List Nat} (rows : ∀ i < b.numRows, ∃ m, b.heights i = {m})
    (hj : j < b.numCols) (before : ∀ k < j, ∃ m, b.widths k = {m})
    (here : ∀ m, b.widths j ≠ {m}) (hl : Ascending l) (hmem : ∀ m, m ∈ l ↔ m ∈ b.widths j) :
    Undetermined b (.inconsistentSizes .column j l)

section Shapes
variable (h : b.traverse (fun _ _ e => e.shape) = .ok shapes)
include h

lemma heights_eq (hi : i < shapes.numRows) :
    {m | some m ∈ (shapes.blockRow i).map (·.map Shape.rows)} = b.heights i := by
  ext m
  rw [Set.mem_ofPred_eq, BlockSizes.mem_blockRow_iff hi]
  constructor
  · rintro ⟨j, t, ht, hm⟩
    obtain ⟨e, he, hshape⟩ := Grid.exists_of_traverse_right h ht
    exact ⟨j, e, t, he, hshape, hm⟩
  · rintro ⟨j, e, t, he, hshape, hm⟩
    obtain ⟨s, hs, hshape'⟩ := Grid.exists_of_traverse_left h he
    cases hshape.symm.trans hshape'
    exact ⟨j, t, hs, hm⟩

lemma widths_eq (hj : j < shapes.numCols) :
    {m | some m ∈ (shapes.blockCol j).map (·.bind Shape.cols?)} = b.widths j := by
  ext m
  rw [Set.mem_ofPred_eq, BlockSizes.mem_blockCol_iff hj]
  constructor
  · rintro ⟨i, t, ht, hm⟩
    obtain ⟨e, he, hshape⟩ := Grid.exists_of_traverse_right h ht
    exact ⟨i, e, t, he, hshape, hm⟩
  · rintro ⟨i, e, t, he, hshape, hm⟩
    obtain ⟨s, hs, hshape'⟩ := Grid.exists_of_traverse_left h he
    cases hshape.symm.trans hshape'
    exact ⟨i, t, hs, hm⟩

/-- The sizes of the block rows and block columns are those on which their cells agree. -/
lemma ofShapes_eq_ok_iff {sizes : BlockSizes} : BlockSizes.ofShapes shapes = .ok sizes ↔
    (sizes.rowSizes.length = b.numRows ∧ ∀ i < b.numRows, b.heights i = {sizes.rowSize i}) ∧
    (sizes.colSizes.length = b.numCols ∧ ∀ j < b.numCols, b.widths j = {sizes.colSize j}) := by
  rw [BlockSizes.ofShapes_eq_ok_iff_sizesFrom,
    BlockSizes.sizesFrom_uniqueSize_eq_ok_iff fun _ => heights_eq h,
    BlockSizes.sizesFrom_uniqueSize_eq_ok_iff fun _ => widths_eq h,
    (Grid.size_of_traverse h).1, (Grid.size_of_traverse h).2]
  rfl

lemma ofShapes_eq_error_iff : BlockSizes.ofShapes shapes = .error err ↔ Undetermined b err := by
  rw [BlockSizes.ofShapes_eq_error_iff_sizesFrom,
    BlockSizes.sizesFrom_uniqueSize_eq_error_iff fun _ => heights_eq h,
    BlockSizes.exists_sizesFrom_uniqueSize_iff fun _ => heights_eq h,
    BlockSizes.sizesFrom_uniqueSize_eq_error_iff fun _ => widths_eq h,
    (Grid.size_of_traverse h).1, (Grid.size_of_traverse h).2]
  constructor
  · rintro (⟨i, hi, before, here, l, hl, hmem, rfl⟩ | ⟨rows, j, hj, before, here, l, hl, hmem, rfl⟩)
    · exact .row hi before here hl hmem
    · exact .column rows hj before here hl hmem
  · intro herr
    cases herr with
    | row hi before here hl hmem => exact .inl ⟨_, hi, before, here, _, hl, hmem, rfl⟩
    | column rows hj before here hl hmem =>
      exact .inr ⟨rows, _, hj, before, here, _, hl, hmem, rfl⟩

end Shapes

/-- Shapes are inferred for all cells before any size is, and the first cell without one ends the
inference. -/
lemma sizes_of_shape_error (h : First (fun e err => e.shape = .error err) b.cells err) :
    b.sizes = .error err := by
  have hcells : b.entries.map (·.2.2) = b.cells := by
    rw [Grid.map_entries (fun e => e), List.map_id']
  rw [← hcells, First.map_iff] at h
  exact Traversal.bind_eq_error_iff.2 (.inl (Grid.traverse_eq_error_iff.2 h))

lemma exists_traverse_shape (h : ∀ e ∈ b.cells, ∃ s, e.shape = .ok s) :
    ∃ shapes, b.traverse (fun _ _ e => e.shape) = .ok shapes := by
  cases htraverse : b.traverse (fun _ _ e => e.shape) with
  | ok shapes => exact ⟨shapes, rfl⟩
  | error err =>
    obtain ⟨⟨i, j, e⟩, hmem, herr⟩ := (Grid.traverse_eq_error_iff.1 htraverse).mem
    have hcell : e ∈ b.cells := by
      rw [← List.map_id' b.cells, ← Grid.map_entries (fun e => e)]
      exact List.mem_map_of_mem (f := fun p => p.2.2) hmem
    obtain ⟨s, hs⟩ := h e hcell
    cases herr.symm.trans hs

/-- The sizes of a grid. A cell without a shape is reported first. Otherwise a grid has the sizes on
which the cells of each block row and of each block column agree, and where there is no such size,
what was found at the first such place is reported. Every row is a slice of the cells and every
column a walk through them in steps of one row, both within their bounds. -/
theorem sizes_outcome (hb : b.WellFormed) :
    (∀ err, First (fun e err => e.shape = .error err) b.cells err → b.sizes = .error err) ∧
    ((∀ e ∈ b.cells, ∃ s, e.shape = .ok s) →
      (∀ sizes, b.sizes = .ok sizes ↔
        (sizes.rowSizes.length = b.numRows ∧ ∀ i < b.numRows, b.heights i = {sizes.rowSize i}) ∧
        (sizes.colSizes.length = b.numCols ∧ ∀ j < b.numCols, b.widths j = {sizes.colSize j})) ∧
      ∀ err, b.sizes = .error err ↔ Undetermined b err) ∧
    (∀ i < b.numRows, (i + 1) * b.numCols ≤ b.cells.length ∧
      ∀ j, (b.blockRow i)[j]? = b.get? i j) ∧
    ∀ j < b.numCols, 0 < b.numCols ∧ b.blockCol j = Grid.stride b.numCols j b.cells ∧
      ∀ i, (b.blockCol j)[i]? = b.get? i j := by
  refine ⟨fun err => sizes_of_shape_error, fun hshapes => ?_, fun i hi => ⟨?_, fun j => ?_⟩,
    fun j hj => ⟨Nat.zero_lt_of_lt hj, Grid.blockCol_eq_stride hb hj, fun i => ?_⟩⟩
  · obtain ⟨shapes, h⟩ := exists_traverse_shape hshapes
    have hsizes : b.sizes = BlockSizes.ofShapes shapes := by
      rw [sizes, h]
      rfl
    rw [hsizes]
    exact ⟨fun _ => ofShapes_eq_ok_iff h, fun _ => ofShapes_eq_error_iff h⟩
  · rw [hb]
    exact Nat.mul_le_mul_right b.numCols hi
  · exact Grid.getElem?_blockRow b hi
  · exact Grid.getElem?_blockCol hb hj

/-- A block row of a vector and two matrices; the last matrix has as many rows as is asked for. -/
def vectorBeside (last : List (List (Nat × Int))) : BlockMatrix Int :=
  ⟨1, 3, [.matrix ⟨2, [[(0, 1)], [], []]⟩, .vector [4, 5, 6], .matrix ⟨1, last⟩]⟩

lemma shape_vectorBeside (last : List (List (Nat × Int))) :
    ∀ e ∈ (vectorBeside last).cells, ∃ s, e.shape = .ok s := by
  intro e he
  simp only [vectorBeside, List.mem_cons, List.not_mem_nil, or_false] at he
  rcases he with rfl | rfl | rfl <;> exact ⟨_, rfl⟩

/-- A vector with a matrix below it, and beside them a matrix with any cell below. -/
def vectorAbove (last : Expr Int) : BlockMatrix Int :=
  ⟨2, 2, [.vector [1, 2], .matrix ⟨3, [[], []]⟩, .matrix ⟨1, [[(0, 7)]]⟩, last]⟩

lemma shape_vectorAbove (s : Int) :
    ∀ e ∈ (vectorAbove (.scalar s)).cells, ∃ t, e.shape = .ok t := by
  intro e he
  simp only [vectorAbove, List.mem_cons, List.not_mem_nil, or_false] at he
  rcases he with rfl | rfl | rfl | rfl <;> exact ⟨_, rfl⟩

/-- Beside two rows and three rows no height is possible, a column of one vector has no width, a
column of a vector and a matrix has that of the matrix, and a transposed vector has no shape. -/
theorem sizes_outcome_vectors :
    ((vectorBeside [[], []]).WellFormed ∧
      Undetermined (vectorBeside [[], []]) (.inconsistentSizes .row 0 [2, 3])) ∧
    ((vectorBeside [[], [], []]).WellFormed ∧
      Undetermined (vectorBeside [[], [], []]) (.inconsistentSizes .column 1 [])) ∧
    ((vectorAbove (.scalar 0)).WellFormed ∧ (vectorAbove (.scalar 0)).widths 0 = {1}) ∧
    (vectorAbove (.transpose (.vector [3]))).sizes = .error (.unsupported .vectorTranspose) := by
  have htwo : (vectorBeside [[], []]).WellFormed := by decide
  have hthree : (vectorBeside [[], [], []]).WellFormed := by decide
  have habove : ∀ e, (vectorAbove e).WellFormed := fun _ => rfl
  have hfirst : First (fun e err => e.shape = .error err)
      (vectorAbove (.transpose (.vector [3]))).cells (.unsupported .vectorTranspose) :=
    .later nofun (.later nofun (.later nofun (.here rfl)))
  have hsizes := ((sizes_outcome (habove (.scalar 0))).2.1 (shape_vectorAbove 0)).1
  exact ⟨⟨htwo, (((sizes_outcome htwo).2.1 (shape_vectorBeside _)).2 _).1 rfl⟩,
    ⟨hthree, (((sizes_outcome hthree).2.1 (shape_vectorBeside _)).2 _).1 rfl⟩,
    ⟨habove _, ((hsizes ⟨[2, 1], [1, 3]⟩).1 rfl).2.2 0 (by decide)⟩,
    (sizes_outcome (habove _)).1 _ hfirst⟩

end BlockMatrix
end BlockSparse
