import BlockSparse.Proofs.Sparse.Kernels
import Mathlib.Algebra.BigOperators.Ring.Finset
import Mathlib.Tactic.Ring

/-! What the kernels store, position by position. The value at a position where nothing is stored
is zero; in exact arithmetic the values of sums, products and transposes are those of the dense
matrices, because a row names each column at most once. -/
namespace BlockSparse.SparseMatrix
open Finset
variable {α β : Type}

/-- In a row whose columns ascend, what is found at a column is what is stored there. -/
lemma lookup_eq_some_iff {entries : List (Nat × α)} (h : Ascending (entries.map Prod.fst)) {j : Nat}
    {x : α} : entries.lookup j = some x ↔ (j, x) ∈ entries := by
  induction entries with
  | nil => simp
  | cons e entries ih =>
    obtain ⟨k, y⟩ := e
    obtain ⟨hk, hrest⟩ := List.pairwise_cons.1 h
    by_cases hjk : j = k
    · subst hjk
      rw [List.lookup_cons_self, List.mem_cons]
      constructor
      · intro hx
        cases hx
        exact .inl rfl
      · rintro (hx | hx)
        · cases hx
          rfl
        · exact absurd (hk j (List.mem_map_of_mem hx)) (Nat.lt_irrefl j)
    · rw [List.lookup_cons, beq_false_of_ne hjk, ih hrest, List.mem_cons]
      simp [hjk]

lemma lookup_eq_none_iff {entries : List (Nat × α)} {j : Nat} :
    entries.lookup j = none ↔ j ∉ entries.map Prod.fst := by
  rw [List.lookup_eq_none_iff, List.mem_map]
  constructor
  · rintro h ⟨e, he, rfl⟩
    simpa using h e he
  · intro h e he
    rw [bne_iff_ne]
    rintro rfl
    exact h ⟨e, he, rfl⟩

lemma lookup_map_pair (s : List Nat) (f : Nat → α) (j : Nat) :
    (s.map fun k => (k, f k)).lookup j = if j ∈ s then some (f j) else none := by
  induction s with
  | nil => simp
  | cons k s ih =>
    rw [List.map_cons, List.lookup_cons, ih]
    by_cases hjk : j = k
    · subst hjk
      simp
    · simp [hjk, beq_false_of_ne hjk]

lemma lookup_map_values (f : α → β) (entries : List (Nat × α)) (j : Nat) :
    (entries.map fun (k, x) => (k, f x)).lookup j = (entries.lookup j).map f := by
  induction entries with
  | nil => rfl
  | cons e entries ih =>
    rw [List.map_cons, List.lookup_cons, List.lookup_cons, ih]
    cases j == e.1 <;> rfl

section Entries

lemma row_mapValues (f : α → β) (a : SparseMatrix α) (i : Nat) :
    (a.mapValues f).row i = (a.row i).map fun (j, x) => (j, f x) := by
  unfold row mapValues
  rw [List.getElem?_map]
  cases a.rows[i]? <;> rfl

lemma stored?_mapValues (f : α → β) (a : SparseMatrix α) (i j : Nat) :
    (a.mapValues f).stored? i j = (a.stored? i j).map f := by
  rw [stored?, row_mapValues, lookup_map_values]
  rfl

lemma row_transpose (a : SparseMatrix α) {j : Nat} (hj : j < a.ncols) :
    a.transpose.row j = a.column j := by
  simp [row, transpose, hj]

lemma stored?_transpose (a : SparseMatrix α) {i j : Nat} (hj : j < a.ncols) :
    a.transpose.stored? j i = a.stored? i j := by
  rw [stored?, row_transpose a hj]
  apply Option.ext
  intro x
  rw [lookup_eq_some_iff (column_wellFormed a j).1, mem_column]

lemma row_scaledIdentity {n i : Nat} (s : α) (hi : i < n) :
    (scaledIdentity n s).row i = [(i, s)] := by
  simp [row, scaledIdentity, hi]

lemma stored?_scaledIdentity {n i : Nat} (s : α) (hi : i < n) (j : Nat) :
    (scaledIdentity n s).stored? i j = if i = j then some s else none := by
  rw [stored?, row_scaledIdentity s hi, List.lookup_cons]
  by_cases hij : i = j
  · simp [hij]
  · rw [if_neg hij, beq_false_of_ne (Ne.symm hij)]
    rfl

variable [Zero α] [One α] [Add α] [Mul α]

lemma row_axpy {a b c : SparseMatrix α} {factor : α} (h : a.axpy factor b = .ok c) (i : Nat) :
    c.row i = axpyRow factor (a.row i) (b.row i) := by
  unfold axpy at h
  split at h
  · rename_i hshape
    have hrows : a.rows.length = b.rows.length := (shape_eq_iff.1 hshape).1
    cases h
    unfold row
    rw [List.getElem?_zipWith]
    by_cases hi : i < a.rows.length
    · have hib : i < b.rows.length := hrows ▸ hi
      simp [hi, hib]
    · have hib : ¬ i < b.rows.length := hrows ▸ hi
      rw [List.getElem?_eq_none (by omega), List.getElem?_eq_none (by omega)]
      rfl
  · cases h

lemma stored?_axpy {a b c : SparseMatrix α} {factor : α} (h : a.axpy factor b = .ok c) (i j : Nat) :
    c.stored? i j = if j ∈ a.rowPattern i ∨ j ∈ b.rowPattern i then
      some (axpyValue factor (a.stored? i j) (b.stored? i j)) else none := by
  rw [stored?, row_axpy h, axpyRow, lookup_map_pair]
  simp only [Ascending.mem_union]
  rfl

lemma row_product {a b c : SparseMatrix α} (h : a.product b = .ok c) (i : Nat) :
    c.row i = productRow b (a.row i) := by
  unfold product at h
  split at h
  · cases h
    unfold row
    rw [List.getElem?_map]
    cases a.rows[i]? <;> rfl
  · cases h

lemma stored?_product {a b c : SparseMatrix α} (h : a.product b = .ok c) (i j : Nat) :
    c.stored? i j = if j ∈ productPattern b (a.row i) then
      some (productValue b (a.row i) j) else none := by
  rw [stored?, row_product h, productRow, lookup_map_pair]

end Entries

/-- The value at a position, which is zero where nothing is stored. -/
def value [Zero α] (a : SparseMatrix α) (i j : Nat) : α := (a.stored? i j).getD 0

lemma value_of_not_mem [Zero α] {a : SparseMatrix α} {i j : Nat} (h : j ∉ a.rowPattern i) :
    a.value i j = 0 := by
  rw [value, stored?, lookup_eq_none_iff.2 h]
  rfl

lemma value_transpose [Zero α] (a : SparseMatrix α) {i j : Nat} (hj : j < a.ncols) :
    a.transpose.value j i = a.value i j := congrArg (·.getD 0) (stored?_transpose a hj)

lemma value_scaledIdentity [Zero α] {n i : Nat} (s : α) (hi : i < n) (j : Nat) :
    (scaledIdentity n s).value i j = if i = j then s else 0 := by
  rw [value, stored?_scaledIdentity s hi]
  split <;> rfl

section Exact
variable [CommRing α]

lemma value_scale (a : SparseMatrix α) (s : α) (i j : Nat) :
    (a.scale s).value i j = a.value i j * s := by
  rw [value, value, scale, stored?_mapValues]
  cases a.stored? i j <;> simp

lemma axpyValue_eq (factor : α) (x y : Option α) :
    axpyValue factor x y = x.getD 0 + factor * y.getD 0 := by
  cases x <;> cases y <;> simp [axpyValue]

theorem value_axpy {a b c : SparseMatrix α} {factor : α} (h : a.axpy factor b = .ok c)
    (i j : Nat) : c.value i j = a.value i j + factor * b.value i j := by
  rw [value, stored?_axpy h]
  split
  · exact axpyValue_eq factor _ _
  · rename_i hnot
    rw [not_or] at hnot
    simp [value_of_not_mem hnot.1, value_of_not_mem hnot.2]

/-- A sum over all columns of a row is a sum over the columns that it stores. -/
lemma sum_lookup_mul {n : Nat} {entries : List (Nat × α)} (h : RowWellFormed n entries)
    (g : Nat → α) :
    ∑ k ∈ range n, (entries.lookup k).getD 0 * g k =
      (entries.map fun e => e.2 * g e.1).sum := by
  induction entries with
  | nil => simp
  | cons e entries ih =>
    obtain ⟨j, x⟩ := e
    obtain ⟨hasc, hbound⟩ := h
    obtain ⟨hj, hrest⟩ := List.pairwise_cons.1 hasc
    have hjn : j < n := hbound j (List.mem_cons_self ..)
    have hnot : entries.lookup j = none := by
      rw [lookup_eq_none_iff]
      exact fun hmem => Nat.lt_irrefl j (hj j hmem)
    have hsplit : ∀ k, (((j, x) :: entries).lookup k).getD 0 * g k =
        (if k = j then x * g j else 0) + (entries.lookup k).getD 0 * g k := by
      intro k
      rw [List.lookup_cons]
      by_cases hkj : k = j
      · subst hkj
        simp [hnot]
      · simp [hkj, beq_false_of_ne hkj]
    simp only [hsplit, sum_add_distrib, sum_ite_eq', mem_range, hjn, if_true]
    rw [ih ⟨hrest, fun k hk => hbound k (List.mem_cons_of_mem _ hk)⟩, List.map_cons, List.sum_cons]

lemma foldl_eq_sum {γ : Type} {step : α → γ → α} {f : γ → α}
    (h : ∀ acc e, step acc e = acc + f e) (z : α) (xs : List γ) :
    xs.foldl step z = z + (xs.map f).sum := by
  induction xs generalizing z with
  | nil => simp
  | cons x xs ih => rw [List.foldl_cons, ih, h, List.map_cons, List.sum_cons, add_assoc]

lemma productValue_eq (b : SparseMatrix α) (entries : List (Nat × α)) (j : Nat) :
    productValue b entries j = (entries.map fun e => e.2 * b.value e.1 j).sum := by
  rw [productValue, foldl_eq_sum (f := fun e => e.2 * b.value e.1 j), zero_add, zero_add]
  intro acc e
  rw [value]
  cases b.stored? e.1 j <;> simp

/-- A product has the values of the product of dense matrices. -/
theorem value_product {a b c : SparseMatrix α} (ha : a.WellFormed) (h : a.product b = .ok c)
    (i j : Nat) : c.value i j = ∑ k ∈ range a.ncols, a.value i k * b.value k j := by
  rw [show (∑ k ∈ range a.ncols, a.value i k * b.value k j) =
    ((a.row i).map fun e => e.2 * b.value e.1 j).sum from sum_lookup_mul (ha.row i) _]
  rw [value, stored?_product h]
  split
  · exact productValue_eq b (a.row i) j
  · rename_i hnot
    rw [mem_productPattern] at hnot
    symm
    apply List.sum_eq_zero
    intro y hy
    obtain ⟨e, he, rfl⟩ := List.mem_map.1 hy
    rw [value_of_not_mem fun hj => hnot ⟨e, he, hj⟩, mul_zero]

lemma dotRow_eq {n : Nat} {entries : List (Nat × α)} (h : RowWellFormed n entries)
    (x : DenseVector α) :
    dotRow entries x = ∑ k ∈ range n, (entries.lookup k).getD 0 * x[k]?.getD 0 := by
  rw [sum_lookup_mul h, dotRow, foldl_eq_sum fun _ _ => rfl, zero_add]

/-- A product with a vector has the entries of the product with a dense matrix. -/
theorem getElem?_mulVec {a : SparseMatrix α} {x y : DenseVector α} (ha : a.WellFormed)
    (h : a.mulVec x = .ok y) {i : Nat} (hi : i < a.nrows) :
    y[i]? = some (∑ k ∈ range a.ncols, a.value i k * x[k]?.getD 0) := by
  unfold mulVec at h
  split at h
  · cases h
    have hrow : a.rows[i]? = some (a.row i) := by
      rw [row, List.getElem?_eq_getElem hi]
      rfl
    rw [List.getElem?_map, hrow, Option.map_some, dotRow_eq (ha.row i)]
    rfl
  · cases h

end Exact
end BlockSparse.SparseMatrix
