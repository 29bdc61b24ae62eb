import BlockSparse.Proofs.Sparse.Values
import BlockSparse.Sparse.Dense

/-! Dense matrices entry by entry. A matrix whose rows are as long as it is wide is determined by
its entries. Blocks that are pasted into a matrix may overlap only where they agree; a position that
one of them covers then has the entry of that block. -/
namespace BlockSparse
variable {α : Type}

namespace DenseMatrix
variable {d d' block : DenseMatrix α} {i j top left : Nat}

/-- Every row has an entry for each column. -/
def Rectangular (d : DenseMatrix α) : Prop := ∀ entries ∈ d.rows, entries.length = d.ncols

lemma isSome_stored?_iff (h : d.Rectangular) :
    (d.stored? i j).isSome ↔ i < d.nrows ∧ j < d.ncols := by
  unfold stored? nrows
  by_cases hi : i < d.rows.length
  · have hlen := h d.rows[i] (List.getElem_mem hi)
    simp [hi, hlen]
  · simp [hi]

/-- Matrices of one size that have the same entries are equal. -/
theorem ext_stored (h : d.Rectangular) (h' : d'.Rectangular) (hrows : d.nrows = d'.nrows)
    (hcols : d.ncols = d'.ncols)
    (heq : ∀ i < d.nrows, ∀ j < d.ncols, d.stored? i j = d'.stored? i j) : d = d' := by
  have hrow : d.rows = d'.rows := by
    apply List.ext_getElem hrows
    intro i hi hi'
    apply List.ext_getElem?
    intro j
    have hlen := h d.rows[i] (List.getElem_mem hi)
    have hlen' := h' d'.rows[i] (List.getElem_mem hi')
    by_cases hj : j < d.ncols
    · simpa [stored?, hi, hi'] using heq i hi j hj
    · rw [List.getElem?_eq_none (by omega), List.getElem?_eq_none (by omega)]
  cases d
  cases d'
  cases hcols
  cases hrow
  rfl

section Zeros
variable [Zero α]

@[simp] lemma nrows_zeros (m n : Nat) : (zeros m n : DenseMatrix α).nrows = m := by
  simp [zeros, nrows]

@[simp] lemma ncols_zeros (m n : Nat) : (zeros m n : DenseMatrix α).ncols = n := rfl

lemma rectangular_zeros (m n : Nat) : (zeros m n : DenseMatrix α).Rectangular := by
  intro entries hentries
  obtain ⟨_, _, rfl⟩ := List.mem_map.1 hentries
  exact List.length_replicate

lemma stored?_zeros {m n : Nat} (hi : i < m) (hj : j < n) :
    (zeros m n : DenseMatrix α).stored? i j = some 0 := by
  simp [zeros, stored?, hi, hj]

end Zeros

section Paste

/-- What a block has at a position of the matrix that it is pasted into. -/
def window? (block : DenseMatrix α) (top left i j : Nat) : Option α :=
  if top ≤ i ∧ left ≤ j then block.stored? (i - top) (j - left) else none

@[simp] lemma nrows_paste (d : DenseMatrix α) (top left : Nat) (block : DenseMatrix α) :
    (d.paste top left block).nrows = d.nrows := List.length_mapIdx

@[simp] lemma ncols_paste (d : DenseMatrix α) (top left : Nat) (block : DenseMatrix α) :
    (d.paste top left block).ncols = d.ncols := rfl

lemma rectangular_paste (h : d.Rectangular) (top left : Nat) (block : DenseMatrix α) :
    (d.paste top left block).Rectangular := by
  intro entries hentries
  obtain ⟨i, hi, rfl⟩ := List.mem_mapIdx.1 hentries
  rw [List.length_mapIdx]
  exact h _ (List.getElem_mem hi)

/-- Pasting replaces the entries that the block covers and leaves the others. -/
lemma stored?_paste (d : DenseMatrix α) (top left : Nat) (block : DenseMatrix α) (i j : Nat) :
    (d.paste top left block).stored? i j =
      (d.stored? i j).map fun x => (block.window? top left i j).getD x := by
  rw [stored?, paste, List.getElem?_mapIdx, stored?]
  cases d.rows[i]? with
  | none => rfl
  | some entries =>
    rw [Option.map_some, Option.bind_some, Option.bind_some, List.getElem?_mapIdx]
    congr 1
    funext x
    unfold window?
    split <;> rfl

/-- Pastes the blocks one after the other, each to its row and column. -/
def pasteAll (d : DenseMatrix α) (pieces : List (Nat × Nat × DenseMatrix α)) : DenseMatrix α :=
  pieces.foldl (fun d p => d.paste p.1 p.2.1 p.2.2) d

variable {pieces : List (Nat × Nat × DenseMatrix α)} {x : α}

@[simp] lemma nrows_pasteAll (d : DenseMatrix α) (pieces : List (Nat × Nat × DenseMatrix α)) :
    (d.pasteAll pieces).nrows = d.nrows := by
  induction pieces generalizing d with
  | nil => rfl
  | cons p pieces ih => exact (ih _).trans (nrows_paste ..)

@[simp] lemma ncols_pasteAll (d : DenseMatrix α) (pieces : List (Nat × Nat × DenseMatrix α)) :
    (d.pasteAll pieces).ncols = d.ncols := by
  induction pieces generalizing d with
  | nil => rfl
  | cons p pieces ih => exact ih _

lemma rectangular_pasteAll (h : d.Rectangular) (pieces : List (Nat × Nat × DenseMatrix α)) :
    (d.pasteAll pieces).Rectangular := by
  induction pieces generalizing d with
  | nil => exact h
  | cons p pieces ih => exact ih (rectangular_paste h p.1 p.2.1 p.2.2)

/-- An entry stays if all blocks that cover it have that entry. -/
lemma stored?_pasteAll_of_eq (hx : d.stored? i j = some x)
    (h : ∀ p ∈ pieces, ∀ y, p.2.2.window? p.1 p.2.1 i j = some y → y = x) :
    (d.pasteAll pieces).stored? i j = some x := by
  induction pieces generalizing d with
  | nil => exact hx
  | cons p pieces ih =>
    refine ih ?_ fun q hq => h q (List.mem_cons_of_mem p hq)
    rw [stored?_paste, hx, Option.map_some]
    cases hp : p.2.2.window? p.1 p.2.1 i j with
    | none => rfl
    | some y => rw [h p List.mem_cons_self y hp, Option.getD_some]

/-- A position that a block covers gets the entry of that block, if all blocks that cover it agree
there. -/
theorem stored?_pasteAll (hd : (d.stored? i j).isSome) {p : Nat × Nat × DenseMatrix α}
    (hp : p ∈ pieces) (hx : p.2.2.window? p.1 p.2.1 i j = some x)
    (h : ∀ q ∈ pieces, ∀ y, q.2.2.window? q.1 q.2.1 i j = some y → y = x) :
    (d.pasteAll pieces).stored? i j = some x := by
  induction pieces generalizing d with
  | nil => cases hp
  | cons q pieces ih =>
    obtain ⟨z, hz⟩ := Option.isSome_iff_exists.1 hd
    have hrest : ∀ r ∈ pieces, ∀ y, r.2.2.window? r.1 r.2.1 i j = some y → y = x :=
      fun r hr => h r (List.mem_cons_of_mem q hr)
    change ((d.paste q.1 q.2.1 q.2.2).pasteAll pieces).stored? i j = some x
    rcases List.mem_cons.1 hp with rfl | hp
    · have hpasted : (d.paste p.1 p.2.1 p.2.2).stored? i j = some x := by
        rw [stored?_paste, hz, hx, Option.map_some, Option.getD_some]
      exact stored?_pasteAll_of_eq hpasted hrest
    · refine ih ?_ hp hrest
      rw [stored?_paste, hz]
      rfl

end Paste

end DenseMatrix

namespace SparseMatrix
variable [Zero α] [Add α] {a : SparseMatrix α} {i j : Nat}

/-- The entry of the dense form: what is stored there, added to zero. -/
def denseEntry (a : SparseMatrix α) (i j : Nat) : α := ((a.stored? i j).map (0 + ·)).getD 0

@[simp] lemma nrows_toDense (a : SparseMatrix α) : a.toDense.nrows = a.nrows := List.length_map _

@[simp] lemma ncols_toDense (a : SparseMatrix α) : a.toDense.ncols = a.ncols := rfl

lemma rectangular_toDense (a : SparseMatrix α) : a.toDense.Rectangular := by
  intro entries hentries
  obtain ⟨row, _, rfl⟩ := List.mem_map.1 hentries
  rw [List.length_map, List.length_range]
  rfl

lemma stored?_toDense (hi : i < a.nrows) (hj : j < a.ncols) :
    a.toDense.stored? i j = some (a.denseEntry i j) := by
  have hrow : a.rows[i]? = some (a.row i) := by
    have hlt : i < a.rows.length := hi
    rw [row, List.getElem?_eq_getElem hlt, Option.getD_some]
  rw [DenseMatrix.stored?, toDense, List.getElem?_map, hrow, Option.map_some, Option.bind_some,
    List.getElem?_map, List.getElem?_range hj, Option.map_some, denseEntry, stored?]
  cases (a.row i).lookup j <;> rfl

/-- A dense form without any entry but zero. -/
lemma toDense_eq_zeros_iff : a.toDense = DenseMatrix.zeros a.nrows a.ncols ↔
    ∀ i < a.nrows, ∀ j < a.ncols, a.denseEntry i j = 0 := by
  constructor
  · intro h i hi j hj
    have hentry := stored?_toDense hi hj
    rw [h, DenseMatrix.stored?_zeros hi hj] at hentry
    exact (Option.some.inj hentry).symm
  · intro h
    refine DenseMatrix.ext_stored (rectangular_toDense a)
      (DenseMatrix.rectangular_zeros a.nrows a.ncols) (by simp) rfl fun i hi j hj => ?_
    rw [nrows_toDense] at hi
    rw [ncols_toDense] at hj
    rw [stored?_toDense hi hj, h i hi j hj, DenseMatrix.stored?_zeros hi hj]

end SparseMatrix
end BlockSparse
