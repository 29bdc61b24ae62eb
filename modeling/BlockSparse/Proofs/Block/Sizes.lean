import BlockSparse.Proofs.Block.Resolve

/-! When a grid has sizes. They are found exactly when every block row has a cell with a shape,
every block column one with a width, and all cells with a shape fit into their places. -/
namespace BlockSparse

lemma Ascending.eq_singleton {s : List Nat} (hs : Ascending s) {n : Nat} (hn : n ∈ s)
    (h : ∀ m ∈ s, m = n) : s = [n] := by
  cases s with
  | nil => cases hn
  | cons m s =>
    obtain ⟨hm, _⟩ := List.pairwise_cons.1 hs
    have hmn : m = n := h m List.mem_cons_self
    cases s with
    | nil => rw [hmn]
    | cons k s =>
      have hlt : m < k := hm k List.mem_cons_self
      have hkn : k = n := h k (List.mem_cons_of_mem m List.mem_cons_self)
      omega

namespace BlockSizes
variable {axis : Axis} {index n : Nat} {found : List (Option Nat)}

lemma uniqueSize_of_forall (hn : some n ∈ found) (h : ∀ m, some m ∈ found → m = n) :
    uniqueSize axis index found = .ok n := by
  have hmem : ∀ m, m ∈ Ascending.ofList (found.filterMap id) ↔ some m ∈ found := by
    intro m
    rw [Ascending.mem_ofList, List.mem_filterMap]
    simp
  have hone := Ascending.eq_singleton (Ascending.ofList_ascending _) ((hmem n).2 hn)
    fun m hm => h m ((hmem m).1 hm)
  rw [uniqueSize, hone]

lemma mem_of_uniqueSize (h : uniqueSize axis index found = .ok n) : some n ∈ found := by
  unfold uniqueSize at h
  split at h
  · rename_i size hs
    cases h
    have hmem : n ∈ Ascending.ofList (found.filterMap id) := hs ▸ List.mem_singleton_self n
    rw [Ascending.mem_ofList, List.mem_filterMap] at hmem
    obtain ⟨o, ho, rfl⟩ := hmem
    exact ho
  · cases h

lemma sizesFrom_eq_ok_iff {size : Nat → Except Error Nat} {count : Nat} {sizes : List Nat} :
    sizesFrom size 0 count = .ok sizes ↔
      sizes.length = count ∧ ∀ i < count, size i = .ok (sizes[i]?.getD 0) := by
  refine ⟨sizesFrom_spec, ?_⟩
  rintro ⟨rfl, h⟩
  rw [sizesFrom_eq_mapM, Traversal.mapM_eq_ok_of_forall fun i hi => h i (by simp at hi; omega)]
  congr 1
  apply List.ext_getElem
  · simp
  · intro i hi _
    simp at hi
    simp [hi]

section Shapes
variable {shapes : Grid (Option Shape)} {sizes : BlockSizes} {i j : Nat}

lemma mem_blockRow_iff (hi : i < shapes.numRows) {m : Nat} :
    some m ∈ (shapes.blockRow i).map (·.map Shape.rows) ↔
      ∃ j t, shapes.get? i j = some (some t) ∧ t.rows = m := by
  rw [List.mem_map]
  constructor
  · rintro ⟨s, hs, hm⟩
    obtain ⟨t, rfl, ht⟩ := Option.map_eq_some_iff.1 hm
    obtain ⟨j, hj⟩ := List.mem_iff_getElem?.1 hs
    rw [Grid.getElem?_blockRow shapes hi] at hj
    exact ⟨j, t, hj, ht⟩
  · rintro ⟨j, t, hj, rfl⟩
    rw [← Grid.getElem?_blockRow shapes hi] at hj
    exact ⟨some t, List.mem_of_getElem? hj, rfl⟩

lemma mem_blockCol_iff (hj : j < shapes.numCols) {m : Nat} :
    some m ∈ (shapes.blockCol j).map (·.bind Shape.cols?) ↔
      ∃ i t, shapes.get? i j = some (some t) ∧ t.cols? = some m := by
  rw [List.mem_map, Grid.blockCol_eq shapes hj]
  constructor
  · rintro ⟨s, hs, hm⟩
    obtain ⟨t, rfl, ht⟩ := Option.bind_eq_some_iff.1 hm
    obtain ⟨i, _, hi⟩ := List.mem_filterMap.1 hs
    exact ⟨i, t, hi, ht⟩
  · rintro ⟨i, t, hi, ht⟩
    obtain ⟨hlt, _, _⟩ := Grid.get?_eq_some_iff.1 hi
    exact ⟨some t, List.mem_filterMap.2 ⟨i, List.mem_range.2 hlt, hi⟩, ht⟩

lemma ofShapes_eq_ok_iff_sizesFrom : ofShapes shapes = .ok sizes ↔
    sizesFrom (fun i => uniqueSize .row i ((shapes.blockRow i).map (·.map Shape.rows))) 0
      shapes.numRows = .ok sizes.rowSizes ∧
    sizesFrom (fun j => uniqueSize .column j ((shapes.blockCol j).map (·.bind Shape.cols?))) 0
      shapes.numCols = .ok sizes.colSizes := by
  rw [ofShapes, Traversal.bind_eq_ok_iff]
  constructor
  · rintro ⟨rowSizes, hrowSizes, h⟩
    obtain ⟨colSizes, hcolSizes, h⟩ := Traversal.bind_eq_ok_iff.1 h
    cases h
    exact ⟨hrowSizes, hcolSizes⟩
  · rintro ⟨hrowSizes, hcolSizes⟩
    exact ⟨_, hrowSizes, Traversal.bind_eq_ok_iff.2 ⟨_, hcolSizes, rfl⟩⟩

/-- A grid has sizes exactly when every block row and every block column has a cell that gives its
size and all cells fit. -/
theorem ofShapes_eq_ok_iff : ofShapes shapes = .ok sizes ↔
    (sizes.rowSizes.length = shapes.numRows ∧ sizes.colSizes.length = shapes.numCols) ∧
    (∀ i j t, shapes.get? i j = some (some t) → sizes.FitTo i j t) ∧
    (∀ i < shapes.numRows, ∃ j t, shapes.get? i j = some (some t)) ∧
    ∀ j < shapes.numCols, ∃ i t n, shapes.get? i j = some (some t) ∧ t.cols? = some n := by
  constructor
  · intro h
    obtain ⟨hrows, hcols, hfit⟩ := ofShapes_spec h
    obtain ⟨hrowSizes, hcolSizes⟩ := ofShapes_eq_ok_iff_sizesFrom.1 h
    refine ⟨⟨hrows, hcols⟩, hfit, fun i hi => ?_, fun j hj => ?_⟩
    · have hmem := mem_of_uniqueSize ((sizesFrom_spec hrowSizes).2 i hi)
      obtain ⟨j, t, ht, _⟩ := (mem_blockRow_iff hi).1 hmem
      exact ⟨j, t, ht⟩
    · have hmem := mem_of_uniqueSize ((sizesFrom_spec hcolSizes).2 j hj)
      obtain ⟨i, t, ht, hn⟩ := (mem_blockCol_iff hj).1 hmem
      exact ⟨i, t, _, ht, hn⟩
  · rintro ⟨⟨hrows, hcols⟩, hfit, hrow, hcol⟩
    refine ofShapes_eq_ok_iff_sizesFrom.2 ⟨sizesFrom_eq_ok_iff.2 ⟨hrows, fun i hi => ?_⟩,
      sizesFrom_eq_ok_iff.2 ⟨hcols, fun j hj => ?_⟩⟩
    · obtain ⟨j, t, ht⟩ := hrow i hi
      refine uniqueSize_of_forall ((mem_blockRow_iff hi).2 ⟨j, t, ht, (hfit i j t ht).1⟩) ?_
      intro m hm
      obtain ⟨j', t', ht', rfl⟩ := (mem_blockRow_iff hi).1 hm
      exact (hfit i j' t' ht').1
    · obtain ⟨i, t, n, ht, hn⟩ := hcol j hj
      obtain rfl : n = sizes.colSize j := (hfit i j t ht).2 n hn
      refine uniqueSize_of_forall ((mem_blockCol_iff hj).2 ⟨i, t, ht, hn⟩) ?_
      intro m hm
      obtain ⟨i', t', ht', hm'⟩ := (mem_blockCol_iff hj).1 hm
      exact (hfit i' j t' ht').2 m hm'

end Shapes

end BlockSizes
end BlockSparse
