import BlockSparse.Sparse.Coordinate
import Mathlib.Algebra.Ring.Nat
import Mathlib.Data.List.Forall2

/-! The entries of a matrix as a list of triplets, and matrices made of such lists. They are well
formed whatever the order of the entries; if the entries of each row come in column order, the
matrix stores exactly the entries of the list. -/
namespace BlockSparse.SparseMatrix
variable {α : Type} {ts : List (Nat × Nat × α)} {nrows ncols : Nat}

/-- The columns and values of the entries that lie in a row. -/
def rowAmong (ts : List (Nat × Nat × α)) (i : Nat) : List (Nat × α) :=
  (ts.filter (·.1 == i)).map Prod.snd

lemma mem_rowAmong {i : Nat} {e : Nat × α} : e ∈ rowAmong ts i ↔ (i, e) ∈ ts := by
  simp [rowAmong]

lemma rowAmong_flatMap {β : Type} (xs : List β) (f : β → List (Nat × Nat × α)) (i : Nat) :
    rowAmong (xs.flatMap f) i = xs.flatMap fun x => rowAmong (f x) i := by
  simp [rowAmong, List.filter_flatMap, List.map_flatMap]

lemma rowAmong_eq_nil {i : Nat} (h : ∀ t ∈ ts, t.1 ≠ i) : rowAmong ts i = [] := by
  rw [rowAmong, List.filter_eq_nil_iff.2 fun t ht => by simpa using h t ht]
  rfl

lemma rowAmong_map {f : Nat → Nat} {g : Nat × α → Nat × α} {i : Nat}
    (hf : ∀ t ∈ ts, f t.1 = f i ↔ t.1 = i) :
    rowAmong (ts.map fun t => (f t.1, g t.2)) (f i) = (rowAmong ts i).map g := by
  have hfilter : (ts.map fun t => (f t.1, g t.2)).filter (·.1 == f i) =
      (ts.filter (·.1 == i)).map fun t => (f t.1, g t.2) := by
    rw [List.filter_map]
    congr 1
    apply List.filter_congr
    intro t ht
    rw [Function.comp_apply, Bool.eq_iff_iff, beq_iff_eq, beq_iff_eq]
    exact hf t ht
  rw [rowAmong, hfilter, rowAmong, List.map_map, List.map_map]
  rfl

/-- Along a list with numbered elements, what is collected from the one with a given number. -/
lemma flatMap_zipIdx_ite {β γ : Type} (xs : List β) (f : β → List γ) (n i : Nat) :
    ((xs.zipIdx n).flatMap fun p => if p.2 = n + i then f p.1 else []) =
      (xs[i]?.map f).getD [] := by
  induction xs generalizing n i with
  | nil => rfl
  | cons x xs ih =>
    rw [List.zipIdx_cons, List.flatMap_cons]
    cases i with
    | zero =>
      have hlater : ∀ p ∈ xs.zipIdx (n + 1), ¬ p.2 = n := by
        intro p hp
        have := (List.mem_zipIdx hp).1
        omega
      have hnil : (xs.zipIdx (n + 1)).flatMap (fun p => if p.2 = n then f p.1 else []) = [] :=
        List.flatMap_eq_nil_iff.2 fun p hp => if_neg (hlater p hp)
      simp [hnil]
    | succ i =>
      have h := ih (n + 1) i
      rw [Nat.add_assoc, Nat.add_comm 1] at h
      rw [h, if_neg (by omega)]
      rfl

lemma rowAmong_map_mk (entries : List (Nat × α)) (k i : Nat) :
    rowAmong (entries.map (Prod.mk k)) i = if k = i then entries else [] := by
  split
  · rename_i h
    subst h
    simp [rowAmong, List.filter_map, Function.comp_def]
  · rename_i h
    apply rowAmong_eq_nil
    intro t ht
    obtain ⟨e, _, rfl⟩ := List.mem_map.1 ht
    exact h

lemma rowAmong_triplets (a : SparseMatrix α) (i : Nat) : rowAmong a.triplets i = a.row i := by
  have hrow : ∀ p ∈ a.rows.zipIdx, rowAmong (p.1.map (Prod.mk p.2)) i =
      if p.2 = 0 + i then p.1 else [] := by
    intro p _
    rw [Nat.zero_add, rowAmong_map_mk]
  rw [triplets, rowAmong_flatMap]
  refine (List.flatMap_congr hrow).trans ((flatMap_zipIdx_ite a.rows id 0 i).trans ?_)
  rw [row, Option.map_id_apply]

lemma mem_triplets_iff {a : SparseMatrix α} {i j : Nat} {x : α} :
    (i, j, x) ∈ a.triplets ↔ (j, x) ∈ a.row i := by
  rw [← rowAmong_triplets, mem_rowAmong]

lemma length_triplets (a : SparseMatrix α) : a.triplets.length = a.nnz := by
  rw [triplets, List.length_flatMap, nnz, List.length_flatten]
  simp only [List.length_map]
  nth_rewrite 2 [← List.zipIdx_map_fst 0 a.rows]
  rw [List.map_map]
  rfl

lemma lt_of_mem_triplets {a : SparseMatrix α} (ha : a.WellFormed) {i j : Nat} {x : α}
    (h : (i, j, x) ∈ a.triplets) : i < a.nrows ∧ j < a.ncols := by
  rw [mem_triplets_iff] at h
  constructor
  · refine Nat.lt_of_not_le fun hi => ?_
    rw [row, List.getElem?_eq_none hi] at h
    exact List.not_mem_nil h
  · exact (ha.row i).2 j (List.mem_map_of_mem h)

lemma tripletsFault_eq_none (h : ∀ t ∈ ts, t.1 < nrows ∧ t.2.1 < ncols) :
    tripletsFault nrows ncols ts = none := by
  have hrows : ¬ ts.any (fun t => nrows ≤ t.1) = true := by
    simpa using fun i j x ht => (h (i, j, x) ht).1
  have hcols : ¬ ts.any (fun t => ncols ≤ t.2.1) = true := by
    simpa using fun i j x ht => (h (i, j, x) ht).2
  rw [tripletsFault, if_neg hrows, if_neg hcols]

/-- The matrix whose rows are those among a list of entries. -/
def ofRowsAmong (nrows ncols : Nat) (ts : List (Nat × Nat × α)) : SparseMatrix α :=
  ⟨ncols, (List.range nrows).map (rowAmong ts)⟩

/-- Entries in bounds that come in column order within each row need not be moved. -/
theorem ofTriplets_of_ascending [Add α] (h : ∀ t ∈ ts, t.1 < nrows ∧ t.2.1 < ncols)
    (hasc : ∀ i, Ascending ((rowAmong ts i).map Prod.fst)) :
    ofTriplets nrows ncols ts = .ok (ofRowsAmong nrows ncols ts) := by
  unfold ofTriplets
  rw [tripletsFault_eq_none h]
  exact congrArg (fun f => Except.ok (mk ncols ((List.range nrows).map f)))
    (funext fun i => rowOfEntries_of_ascending (hasc i))

section OfTriplets
variable [Add α] {a : SparseMatrix α}

lemma mem_insertEntry {j k : Nat} {x : α} {entries : List (Nat × α)} :
    k ∈ (insertEntry j x entries).map Prod.fst ↔ k = j ∨ k ∈ entries.map Prod.fst := by
  induction entries with
  | nil => simp [insertEntry]
  | cons e entries ih =>
    obtain ⟨l, y⟩ := e
    rw [insertEntry]
    split
    · simp
    · split
      · rename_i hjl
        simp [hjl]
      · rw [List.map_cons, List.mem_cons, ih, List.map_cons, List.mem_cons]
        exact or_left_comm

/-- An entry that is put into a row leaves its columns in order. -/
lemma ascending_insertEntry {j : Nat} {x : α} {entries : List (Nat × α)}
    (h : Ascending (entries.map Prod.fst)) :
    Ascending ((insertEntry j x entries).map Prod.fst) := by
  induction entries with
  | nil => exact List.pairwise_singleton _ _
  | cons e entries ih =>
    obtain ⟨l, y⟩ := e
    obtain ⟨hl, hrest⟩ := List.pairwise_cons.1 h
    rw [insertEntry]
    split
    · rename_i hjl
      refine List.pairwise_cons.2 ⟨fun k hk => ?_, h⟩
      rcases List.mem_cons.1 hk with rfl | hk
      · exact hjl
      · exact Nat.lt_trans hjl (hl k hk)
    · split
      · exact h
      · refine List.pairwise_cons.2 ⟨fun k hk => ?_, ih hrest⟩
        rcases mem_insertEntry.1 hk with rfl | hk
        · omega
        · exact hl k hk

/-- A row made of entries in any order is well formed if all of them lie below the bound. -/
lemma rowWellFormed_rowOfEntries {entries : List (Nat × α)} (h : ∀ e ∈ entries, e.1 < ncols) :
    RowWellFormed ncols (rowOfEntries entries) := by
  have hfold : ∀ row : List (Nat × α), RowWellFormed ncols row →
      RowWellFormed ncols (entries.foldl (fun row e => insertEntry e.1 e.2 row) row) := by
    induction entries with
    | nil => exact fun _ hrow => hrow
    | cons e entries ih =>
      rintro row ⟨hasc, hbound⟩
      obtain ⟨he, hrest⟩ := List.forall_mem_cons.1 h
      refine ih hrest _ ⟨ascending_insertEntry hasc, fun k hk => ?_⟩
      rcases mem_insertEntry.1 hk with rfl | hk
      · exact he
      · exact hbound k hk
  exact hfold [] (rowWellFormed_nil ncols)

/-- Entries in any order make a well-formed matrix, if they make one at all. -/
theorem wellFormed_ofTriplets (h : ofTriplets nrows ncols ts = .ok a) : a.WellFormed := by
  unfold ofTriplets at h
  split at h
  · cases h
  · rename_i hnone
    cases h
    have hcols : ∀ t ∈ ts, t.2.1 < ncols := by
      unfold tripletsFault at hnone
      split at hnone
      · cases hnone
      · split at hnone
        · cases hnone
        · rename_i hcols
          simpa using hcols
    intro entries hentries
    obtain ⟨i, _, rfl⟩ := List.mem_map.1 hentries
    refine rowWellFormed_rowOfEntries fun e he => ?_
    exact hcols (i, e) (mem_rowAmong.1 he)

end OfTriplets

section OfRowsAmong

lemma shape_ofRowsAmong (nrows ncols : Nat) (ts : List (Nat × Nat × α)) :
    (ofRowsAmong nrows ncols ts).shape = .matrix nrows ncols := by
  simp [ofRowsAmong, shape, SparseMatrix.nrows]

lemma wellFormed_ofRowsAmong (h : ∀ t ∈ ts, t.2.1 < ncols)
    (hasc : ∀ i, Ascending ((rowAmong ts i).map Prod.fst)) :
    (ofRowsAmong nrows ncols ts).WellFormed := by
  intro entries he
  obtain ⟨i, _, rfl⟩ := List.mem_map.1 he
  refine ⟨hasc i, fun j hj => ?_⟩
  obtain ⟨e, hmem, rfl⟩ := List.mem_map.1 hj
  exact h (i, e) (mem_rowAmong.1 hmem)

lemma row_ofRowsAmong (h : ∀ t ∈ ts, t.1 < nrows) (i : Nat) :
    (ofRowsAmong nrows ncols ts).row i = rowAmong ts i := by
  by_cases hi : i < nrows
  · simp [row, ofRowsAmong, hi]
  · have hnone : ∀ t ∈ ts, t.1 ≠ i := fun t ht hti => hi (hti ▸ h t ht)
    rw [rowAmong_eq_nil hnone, row, ofRowsAmong, List.getElem?_eq_none (by simpa using hi)]
    rfl

/-- Every entry of the list is stored, and nothing else is. -/
lemma mem_triplets_ofRowsAmong (h : ∀ t ∈ ts, t.1 < nrows) {t : Nat × Nat × α} :
    t ∈ (ofRowsAmong nrows ncols ts).triplets ↔ t ∈ ts := by
  obtain ⟨i, j, x⟩ := t
  rw [mem_triplets_iff, row_ofRowsAmong h, mem_rowAmong]

lemma countP_lt_succ (ts : List (Nat × Nat × α)) (n : Nat) :
    ts.countP (·.1 < n + 1) = ts.countP (·.1 < n) + (rowAmong ts n).length := by
  rw [rowAmong, List.length_map, ← List.countP_eq_length_filter]
  induction ts with
  | nil => rfl
  | cons t ts ih =>
    simp only [List.countP_cons, ih, decide_eq_true_eq, beq_iff_eq]
    split <;> split <;> split <;> omega

lemma sum_length_rowAmong (ts : List (Nat × Nat × α)) (n : Nat) :
    ((List.range n).map fun i => (rowAmong ts i).length).sum = ts.countP (·.1 < n) := by
  induction n with
  | zero => simp
  | succ n ih => rw [List.range_succ, List.map_append, List.sum_append, ih, countP_lt_succ]; simp

lemma nnz_ofRowsAmong (h : ∀ t ∈ ts, t.1 < nrows) :
    (ofRowsAmong nrows ncols ts).nnz = ts.length := by
  rw [nnz, ofRowsAmong, List.length_flatten, List.map_map]
  refine (sum_length_rowAmong ts nrows).trans ?_
  rw [List.countP_eq_length]
  simpa using h

end OfRowsAmong
end BlockSparse.SparseMatrix
