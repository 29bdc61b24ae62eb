import BlockSparse.Sparse.Compressed

/-! Sparse matrices built from their rows in ascending order. The rows inserted so far are kept in
flat arrays. A row that is skipped is empty, and is closed only when a later row is inserted or the
matrix is finished. Each insertion checks only where the row belongs and that its two lists match;
the columns are checked when the matrix is finished. -/
namespace BlockSparse

/-- The rows inserted so far into a matrix of known size: where each of them ends, and the column
indices and values of all of them. -/
structure RowBuilder (α : Type) where
  nrows : Nat
  ncols : Nat
  rowOffsets : List Nat
  colIndices : List Nat
  values : List α

namespace RowBuilder
variable {α : Type}

/-- A matrix of the given size into which nothing has been inserted. -/
def new (nrows ncols : Nat) : RowBuilder α := ⟨nrows, ncols, [0], [], []⟩

/-- The least row that may still be inserted. -/
def nextRow (b : RowBuilder α) : Nat := b.rowOffsets.length - 1

/-- Ends the next row behind the entries that are there. -/
def closeRow (b : RowBuilder α) : RowBuilder α :=
  { b with rowOffsets := b.rowOffsets ++ [b.colIndices.length] }

/-- Closes rows until the given one is the next. -/
def closeRowsUntil (b : RowBuilder α) (row : Nat) : RowBuilder α :=
  Nat.repeat closeRow (row - b.nextRow) b

/-- Puts entries behind those that are there. -/
def extend (b : RowBuilder α) (columns : List Nat) (values : List α) : RowBuilder α :=
  { b with colIndices := b.colIndices ++ columns, values := b.values ++ values }

/-- Inserts a row given by its columns and its values. -/
def insertRow (row : Nat) (columns : List Nat) (values : List α) :
    EStateM Error (RowBuilder α) Unit := do
  let b ← get
  if b.nrows ≤ row then throw (.indexOutOfBounds row b.nrows)
  else if row < b.nextRow then throw (.malformed (.rowOutOfOrder row (b.nextRow - 1)))
  else if columns.length ≠ values.length then
    throw (.malformed (.rowLengths row columns.length values.length))
  else do
    modify (·.closeRowsUntil row)
    modify (·.extend columns values)
    modify (·.closeRow)

/-- The builder into which a row has been inserted. -/
def insert (b : RowBuilder α) (row : Nat) (columns : List Nat) (values : List α) :
    Except Error (RowBuilder α) :=
  match (insertRow row columns values).run b with
  | .ok _ c => .ok c
  | .error e _ => .error e

/-- The arrays of the builder as they are. -/
def arrays (b : RowBuilder α) : Compressed α :=
  ⟨b.nrows, b.ncols, b.rowOffsets, b.colIndices, b.values⟩

/-- The finished matrix, once its arrays have been found well formed. -/
def build (b : RowBuilder α) : Except Error (SparseMatrix α) :=
  (b.closeRowsUntil b.nrows).arrays.toMatrix

@[simp] theorem nextRow_new (nrows ncols : Nat) :
    (new nrows ncols : RowBuilder α).nextRow = 0 := rfl

example : ((new 4 3).insert 1 [0, 2] [5, 0]).map arrays =
    .ok ⟨4, 3, [0, 0, 2], [0, 2], [5, 0]⟩ := rfl

end RowBuilder
end BlockSparse
