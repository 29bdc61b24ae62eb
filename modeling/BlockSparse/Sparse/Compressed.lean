import BlockSparse.Error
import BlockSparse.Offsets
import BlockSparse.Sparse.Basic

/-! The compressed-row form of a sparse matrix: three flat arrays, with offsets that cut the column
indices and the values into rows. Arbitrary arrays are checked before a matrix is made of them, and
the first fault met is reported. -/
namespace BlockSparse

/-- Row offsets, column indices and values of a matrix of the given size. -/
structure Compressed (α : Type) where
  nrows : Nat
  ncols : Nat
  rowOffsets : List Nat
  colIndices : List Nat
  values : List α
  deriving BEq, DecidableEq

/-- The first fault of the columns of one row, the last column before them being `previous`. -/
def columnsFault (ncols : Nat) (previous : Option Nat) : List Nat → Option FormatFault
  | [] => none
  | j :: rest =>
    if ncols ≤ j then some .columnOutOfBounds
    else match previous with
      | none => columnsFault ncols (some j) rest
      | some p =>
        if j < p then some .columnsUnsorted
        else if j = p then some .duplicateEntry
        else columnsFault ncols (some j) rest

/-- Columns that follow a given one have no fault when they ascend strictly beyond it below the
bound. -/
theorem columnsFault_some_eq_none_iff {ncols p : Nat} {cols : List Nat} :
    columnsFault ncols (some p) cols = none ↔
      Ascending (p :: cols) ∧ ∀ j ∈ cols, j < ncols := by
  induction cols generalizing p with
  | nil => simp [columnsFault, Ascending]
  | cons j rest ih =>
    have hcons : Ascending (p :: j :: rest) ↔ p < j ∧ Ascending (j :: rest) := by
      constructor
      · intro h
        obtain ⟨hp, h⟩ := List.pairwise_cons.1 h
        exact ⟨hp j (List.mem_cons_self ..), h⟩
      · rintro ⟨hpj, h⟩
        refine List.pairwise_cons.2 ⟨fun k hk => ?_, h⟩
        rcases List.mem_cons.1 hk with rfl | hk
        · exact hpj
        · exact Nat.lt_trans hpj ((List.pairwise_cons.1 h).1 k hk)
    simp only [columnsFault, hcons, List.forall_mem_cons]
    split
    · simp; omega
    · split
      · simp; omega
      · split
        · simp; omega
        · rw [ih]
          constructor
          · rintro ⟨h, hb⟩
            exact ⟨⟨by omega, h⟩, by omega, hb⟩
          · rintro ⟨⟨_, h⟩, _, hb⟩
            exact ⟨h, hb⟩

/-- A row has no fault exactly when its columns ascend strictly below the bound. -/
theorem columnsFault_none_eq_none_iff {ncols : Nat} {cols : List Nat} :
    columnsFault ncols none cols = none ↔ Ascending cols ∧ ∀ j ∈ cols, j < ncols := by
  cases cols with
  | nil => simp [columnsFault, Ascending]
  | cons j rest =>
    simp only [columnsFault, List.forall_mem_cons]
    split
    · simp; omega
    · rw [columnsFault_some_eq_none_iff]
      constructor
      · rintro ⟨h, hb⟩
        exact ⟨h, by omega, hb⟩
      · rintro ⟨h, _, hb⟩
        exact ⟨h, hb⟩

namespace Compressed
variable {α : Type}

/-- The column indices of one row. -/
def rowColumns (c : Compressed α) (i : Nat) : List Nat :=
  let start := c.rowOffsets[i]?.getD 0
  (c.colIndices.drop start).take (c.rowOffsets[i + 1]?.getD 0 - start)

/-- The arrays describe a matrix. -/
structure WellFormed (c : Compressed α) : Prop where
  offsetCount : c.rowOffsets.length = c.nrows + 1
  offsetsStart : c.rowOffsets.head? = some 0
  offsetsEnd : c.rowOffsets.getLast? = some c.colIndices.length
  offsetsMono : c.rowOffsets.Pairwise (· ≤ ·)
  valueCount : c.values.length = c.colIndices.length
  columnsAscend : ∀ i < c.nrows, Ascending (c.rowColumns i)
  columnsBounded : ∀ i < c.nrows, ∀ j ∈ c.rowColumns i, j < c.ncols

/-- The first fault met while walking the rows: each row first shows whether its offsets decrease,
then its columns from left to right. -/
def rowsFault (ncols : Nat) (colIndices : List Nat) : List Nat → Option FormatFault
  | start :: stop :: rest =>
    if stop < start then some .offsetsDecrease
    else match columnsFault ncols none ((colIndices.drop start).take (stop - start)) with
      | some fault => some fault
      | none => rowsFault ncols colIndices (stop :: rest)
  | _ => none

/-- The first fault of the arrays, if they have one. -/
def fault? (c : Compressed α) : Option FormatFault :=
  if c.rowOffsets.length ≠ c.nrows + 1 then some .offsetCount
  else if c.rowOffsets.head? ≠ some 0 ∨ c.rowOffsets.getLast? ≠ some c.colIndices.length then
    some .offsetEnds
  else match rowsFault c.ncols c.colIndices c.rowOffsets with
    | some fault => some fault
    | none => if c.values.length ≠ c.colIndices.length then some .valueCount else none

/-- The matrix that the arrays describe. -/
def toMatrix (c : Compressed α) : Except Error (SparseMatrix α) :=
  match c.fault? with
  | some fault => .error (.malformed fault)
  | none => .ok ⟨c.ncols, Offsets.slices (c.colIndices.zip c.values) c.rowOffsets⟩

end Compressed

namespace SparseMatrix
variable {α : Type}

/-- The flat arrays of a matrix. -/
def compress (a : SparseMatrix α) : Compressed α where
  nrows := a.nrows
  ncols := a.ncols
  rowOffsets := Offsets.cumulative (a.rows.map List.length)
  colIndices := a.rows.flatMap (·.map Prod.fst)
  values := a.rows.flatMap (·.map Prod.snd)

/-- The matrix with the given rows, if all of them are well formed. -/
def ofRows (ncols : Nat) (rows : List (List (Nat × α))) : Except Error (SparseMatrix α) :=
  match rows.findSome? fun entries => columnsFault ncols none (entries.map Prod.fst) with
  | some fault => .error (.malformed fault)
  | none => .ok ⟨ncols, rows⟩

/-- Rows make a matrix exactly when they are well formed. -/
theorem ofRows_eq_ok_iff {ncols : Nat} {rows : List (List (Nat × α))} {a : SparseMatrix α} :
    ofRows ncols rows = .ok a ↔ a = ⟨ncols, rows⟩ ∧ a.WellFormed := by
  unfold ofRows
  cases h : rows.findSome? fun entries => columnsFault ncols none (entries.map Prod.fst) with
  | none =>
    have hrows : WellFormed ⟨ncols, rows⟩ := fun entries he =>
      columnsFault_none_eq_none_iff.1 (List.findSome?_eq_none_iff.1 h entries he)
    constructor
    · intro ha
      cases ha
      exact ⟨rfl, hrows⟩
    · rintro ⟨rfl, _⟩
      rfl
  | some fault =>
    constructor
    · intro ha
      cases ha
    · rintro ⟨rfl, hrows⟩
      have hnone := List.findSome?_eq_none_iff.2 fun entries he =>
        columnsFault_none_eq_none_iff.2 (hrows entries he)
      rw [h] at hnone
      cases hnone

end SparseMatrix

example : (SparseMatrix.mk 3 [[(0, 5), (2, 7)], [], [(1, 9)]]).compress =
    ⟨3, 3, [0, 2, 2, 3], [0, 2, 1], [5, 7, 9]⟩ := by decide

example : (Compressed.mk 2 2 [0, 2, 2] [1, 0] [3, 4]).toMatrix =
    .error (.malformed .columnsUnsorted) := rfl

end BlockSparse
