import BlockSparse.Proofs.Offsets
import BlockSparse.Sparse.Compressed

/-! The compressed-row form of a matrix. It is well formed exactly when the rows of the matrix are.
Arbitrary arrays are accepted exactly when they are well formed, and then they are the compressed
form of the one matrix that is made of them. -/
namespace BlockSparse
open Offsets
variable {α : Type}

namespace Compressed
variable {c : Compressed α} {a : SparseMatrix α}

/-- The column indices are cut into rows at the offsets. -/
lemma getElem?_slices_rowOffsets (h : c.rowOffsets.length = c.nrows + 1) {i : Nat}
    (hi : i < c.nrows) : (slices c.colIndices c.rowOffsets)[i]? = some (c.rowColumns i) := by
  have hstart : i < c.rowOffsets.length := by omega
  have hstop : i + 1 < c.rowOffsets.length := by omega
  simp [getElem?_slices, rowColumns, hstart, hstop]

lemma forall_rowColumns_iff (h : c.rowOffsets.length = c.nrows + 1) {P : List Nat → Prop} :
    (∀ i < c.nrows, P (c.rowColumns i)) ↔ ∀ row ∈ slices c.colIndices c.rowOffsets, P row := by
  constructor
  · intro hP row hrow
    obtain ⟨i, hi⟩ := List.mem_iff_getElem?.1 hrow
    have hlt : i < c.nrows := by
      have := (List.getElem?_eq_some_iff.1 hi).1
      rw [length_slices] at this
      omega
    rw [getElem?_slices_rowOffsets h hlt] at hi
    cases hi
    exact hP i hlt
  · intro hP i hi
    exact hP _ (List.mem_of_getElem? (getElem?_slices_rowOffsets h hi))

/-- The rows have no fault exactly when the offsets never decrease and the columns of each row
ascend strictly below the bound. -/
lemma rowsFault_eq_none_iff {ncols : Nat} {cols offsets : List Nat} :
    rowsFault ncols cols offsets = none ↔ offsets.Pairwise (· ≤ ·) ∧
      ∀ row ∈ slices cols offsets, Ascending row ∧ ∀ j ∈ row, j < ncols := by
  induction offsets with
  | nil => simp [rowsFault, slices]
  | cons start offsets ih =>
    cases offsets with
    | nil => simp [rowsFault, slices]
    | cons stop rest =>
      rw [rowsFault, slices, List.forall_mem_cons, ← columnsFault_none_eq_none_iff]
      have hle : (start :: stop :: rest).Pairwise (· ≤ ·) ↔
          start ≤ stop ∧ (stop :: rest).Pairwise (· ≤ ·) := by
        constructor
        · intro h
          obtain ⟨hstart, h⟩ := List.pairwise_cons.1 h
          exact ⟨hstart stop List.mem_cons_self, h⟩
        · rintro ⟨hstart, h⟩
          refine List.pairwise_cons.2 ⟨fun n hn => ?_, h⟩
          rcases List.mem_cons.1 hn with rfl | hn
          · exact hstart
          · exact Nat.le_trans hstart ((List.pairwise_cons.1 h).1 n hn)
      rw [hle]
      split
      · rename_i hlt
        simp [Nat.not_le_of_lt hlt]
      · rename_i hlt
        cases columnsFault ncols none ((cols.drop start).take (stop - start)) with
        | some fault => simp
        | none => simp [ih, Nat.le_of_not_lt hlt]

/-- Where the offsets never decrease, the first fault is that of the first row that has one. -/
lemma rowsFault_eq_findSome? {ncols : Nat} {cols offsets : List Nat}
    (h : offsets.Pairwise (· ≤ ·)) :
    rowsFault ncols cols offsets = (slices cols offsets).findSome? (columnsFault ncols none) := by
  induction offsets with
  | nil => rfl
  | cons start offsets ih =>
    cases offsets with
    | nil => rfl
    | cons stop rest =>
      obtain ⟨hstart, hrest⟩ := List.pairwise_cons.1 h
      rw [rowsFault, slices, List.findSome?_cons, ih hrest,
        if_neg (Nat.not_lt_of_le (hstart stop List.mem_cons_self))]
      cases columnsFault ncols none ((cols.drop start).take (stop - start)) <;> rfl

/-- No fault is found exactly when the arrays are well formed. -/
theorem fault?_eq_none_iff : c.fault? = none ↔ c.WellFormed := by
  have hrows : ∀ h : c.rowOffsets.length = c.nrows + 1,
      rowsFault c.ncols c.colIndices c.rowOffsets = none ↔ c.rowOffsets.Pairwise (· ≤ ·) ∧
        ∀ i < c.nrows, Ascending (c.rowColumns i) ∧ ∀ j ∈ c.rowColumns i, j < c.ncols := fun h => by
    rw [rowsFault_eq_none_iff,
      forall_rowColumns_iff (P := fun row => Ascending row ∧ ∀ j ∈ row, j < c.ncols) h]
  constructor
  · intro h
    unfold fault? at h
    split at h
    · cases h
    · rename_i hcount
      split at h
      · cases h
      · rename_i hends
        rw [not_or, not_not, not_not] at hends
        split at h
        · cases h
        · rename_i hnone
          split at h
          · cases h
          · rename_i hvalues
            obtain ⟨hmono, hcols⟩ := (hrows (not_not.1 hcount)).1 hnone
            exact ⟨not_not.1 hcount, hends.1, hends.2, hmono, not_not.1 hvalues,
              fun i hi => (hcols i hi).1, fun i hi => (hcols i hi).2⟩
  · intro h
    have hnone := (hrows h.offsetCount).2
      ⟨h.offsetsMono, fun i hi => ⟨h.columnsAscend i hi, h.columnsBounded i hi⟩⟩
    rw [fault?, if_neg (not_not.2 h.offsetCount), if_neg, hnone]
    · exact if_neg (not_not.2 h.valueCount)
    · rw [not_or, not_not, not_not]
      exact ⟨h.offsetsStart, h.offsetsEnd⟩

lemma toMatrix_eq_ok_iff : c.toMatrix = .ok a ↔
    c.WellFormed ∧ a = ⟨c.ncols, slices (c.colIndices.zip c.values) c.rowOffsets⟩ := by
  rw [← fault?_eq_none_iff, toMatrix]
  cases c.fault? with
  | some fault => simp
  | none => simp [eq_comm]

/-- What is made of arrays has these arrays. -/
lemma compress_of_toMatrix (h : c.toMatrix = .ok a) : a.compress = c := by
  obtain ⟨hc, rfl⟩ := toMatrix_eq_ok_iff.1 h
  obtain ⟨sizes, hsizes⟩ := exists_cumulativeFrom hc.offsetsMono hc.offsetsStart
  have hsum : sizes.sum = c.colIndices.length := by
    have hend := hc.offsetsEnd
    rw [hsizes, getLast?_cumulativeFrom, Nat.zero_add] at hend
    exact Option.some.inj hend
  have hlen : (c.colIndices.zip c.values).length = c.colIndices.length := by
    rw [List.length_zip, hc.valueCount, Nat.min_self]
  have hoffsets : cumulative ((slices (c.colIndices.zip c.values) c.rowOffsets).map List.length) =
      c.rowOffsets := by
    rw [hsizes, map_length_slices (by omega)]
    rfl
  have hflatten : (slices (c.colIndices.zip c.values) c.rowOffsets).flatten =
      c.colIndices.zip c.values := by
    rw [hsizes, flatten_slices, List.drop_zero, hsum, ← hlen, List.take_length]
  have hrows : (slices (c.colIndices.zip c.values) c.rowOffsets).length = c.nrows := by
    rw [length_slices, hc.offsetCount, Nat.add_sub_cancel]
  change mk (slices _ _).length c.ncols (cumulative _) ((slices _ _).flatMap _)
    ((slices _ _).flatMap _) = c
  rw [List.flatMap_def, List.flatMap_def, ← List.map_flatten, ← List.map_flatten, hrows, hoffsets,
    hflatten, List.map_fst_zip (Nat.le_of_eq hc.valueCount.symm),
    List.map_snd_zip (Nat.le_of_eq hc.valueCount)]

end Compressed

namespace SparseMatrix
variable {a : SparseMatrix α}

/-- The column indices of the compressed form, cut at its offsets, are the columns of the rows. -/
lemma slices_compress (a : SparseMatrix α) :
    slices a.compress.colIndices a.compress.rowOffsets = a.pattern := by
  have h := slices_flatten a.pattern
  rw [pattern, List.map_map] at h
  simpa [compress, pattern, List.flatMap_def, Function.comp_def] using h

/-- The flat arrays of rows have the first fault of the rows, whatever the rows are. -/
lemma fault?_compress (a : SparseMatrix α) :
    a.compress.fault? = a.pattern.findSome? (columnsFault a.ncols none) := by
  have hcount : a.compress.rowOffsets.length = a.compress.nrows + 1 := by
    rw [compress, length_cumulative, List.length_map]
    rfl
  have hend : a.compress.rowOffsets.getLast? = some a.compress.colIndices.length := by
    rw [compress, cumulative, getLast?_cumulativeFrom]
    simp [List.length_flatMap]
  have hvalues : a.compress.values.length = a.compress.colIndices.length := by
    simp [compress, List.length_flatMap]
  have hmono : a.compress.rowOffsets.Pairwise (· ≤ ·) := (pairwise_cumulativeFrom ..).1
  have hrows : Compressed.rowsFault a.compress.ncols a.compress.colIndices a.compress.rowOffsets =
      a.pattern.findSome? (columnsFault a.ncols none) := by
    rw [Compressed.rowsFault_eq_findSome? hmono, slices_compress]
    rfl
  rw [Compressed.fault?, if_neg (not_not.2 hcount), if_neg, hrows, if_neg (not_not.2 hvalues)]
  · cases a.pattern.findSome? (columnsFault a.ncols none) <;> rfl
  · rw [not_or, not_not, not_not]
    exact ⟨head?_cumulativeFrom .., hend⟩

theorem wellFormed_compress_iff (a : SparseMatrix α) : a.compress.WellFormed ↔ a.WellFormed := by
  rw [← Compressed.fault?_eq_none_iff, fault?_compress, List.findSome?_eq_none_iff, pattern,
    List.forall_mem_map]
  exact forall₂_congr fun _ _ => columnsFault_none_eq_none_iff

/-- Rows are checked as their flat arrays are, with the same result. -/
theorem toMatrix_compress (a : SparseMatrix α) : a.compress.toMatrix = ofRows a.ncols a.rows := by
  have hzip : a.compress.colIndices.zip a.compress.values = a.rows.flatten := by
    simp only [compress, List.flatMap_def, ← List.map_flatten]
    exact (List.zip_of_prod rfl rfl).symm
  rw [Compressed.toMatrix, fault?_compress, pattern, List.findSome?_map, ofRows, hzip]
  have hrows : slices a.rows.flatten a.compress.rowOffsets = a.rows := slices_flatten a.rows
  rw [hrows]
  rfl

end SparseMatrix

/-- Arrays are accepted exactly when they are the compressed form of a well-formed matrix, and that
is the matrix that is made of them. -/
theorem Compressed.toMatrix_eq_ok_iff_compress_eq {c : Compressed α} {a : SparseMatrix α} :
    c.toMatrix = .ok a ↔ a.WellFormed ∧ a.compress = c := by
  constructor
  · intro h
    have hcompress := compress_of_toMatrix h
    refine ⟨?_, hcompress⟩
    rw [← SparseMatrix.wellFormed_compress_iff, hcompress]
    exact (toMatrix_eq_ok_iff.1 h).1
  · rintro ⟨ha, rfl⟩
    rw [SparseMatrix.toMatrix_compress]
    exact SparseMatrix.ofRows_eq_ok_iff.2 ⟨rfl, ha⟩

end BlockSparse
