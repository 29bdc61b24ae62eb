import BlockSparse.Size
import BlockSparse.Sparse.Basic

/-! A deterministic family of sparse matrices for experiments. -/
namespace BlockSparse.SparseMatrix

/-- The entry of a sample in one row and column, if there is one. -/
def sampleEntry (seed i j : Nat) : Except Error (Option (Nat × Float)) := do
  let place ← Size.check .add (7 * i + 3 * j + seed)
  if place % 4 = 0 then pure none
  else
    let n ← Size.check .add ((i + 1) * (j + 2) + seed)
    let x := Float.ofNat n / 3
    pure (some (j, if (i + j + seed) % 2 = 0 then x else -x))

/-- A matrix whose pattern and values depend on a seed: a quarter of the positions is empty, the
values are thirds of whole numbers, and their signs alternate along rows and columns. -/
def sample (nrows ncols seed : Nat) : Except Error (SparseMatrix Float) := do
  let rows ← (List.range nrows).mapM fun i => do
    let entries ← (List.range ncols).mapM (sampleEntry seed i)
    pure (entries.filterMap id)
  pure ⟨ncols, rows⟩

end BlockSparse.SparseMatrix
