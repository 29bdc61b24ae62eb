import BlockSparse.DenseVector
import BlockSparse.Sparse.Basic

/-! Arithmetic of sparse matrices. The pattern of a result depends on the patterns
of the operands alone: nothing is dropped because its value happens to be zero. The order of the
additions and multiplications of each entry is part of the definitions, so that they also hold for
scalars whose arithmetic rounds. -/
namespace BlockSparse.SparseMatrix
variable {α : Type}

/-- The stored entries of a column as pairs of row and value. -/
def column (a : SparseMatrix α) (j : Nat) : List (Nat × α) :=
  a.rows.zipIdx.filterMap fun (entries, i) => (entries.lookup j).map fun x => (i, x)

/-- The transpose, which keeps every stored entry. -/
def transpose (a : SparseMatrix α) : SparseMatrix α :=
  ⟨a.nrows, (List.range a.ncols).map a.column⟩

/-- Multiplies every stored value by a scalar from the right. -/
def scale [Mul α] (a : SparseMatrix α) (s : α) : SparseMatrix α := a.mapValues (· * s)

/-- The square matrix that stores a scalar at each diagonal position and nothing else. -/
def scaledIdentity (n : Nat) (s : α) : SparseMatrix α :=
  ⟨n, (List.range n).map fun i => [(i, s)]⟩

/-- The value of `x + factor * y` at a position of the united pattern: starting from zero, what is
stored is added and what is not stored takes no part. -/
def axpyValue [Zero α] [One α] [Add α] [Mul α] (factor : α) (x y : Option α) : α :=
  let z := match x with
    | some x => 0 + 1 * x
    | none => 0
  match y with
  | some y => z + factor * y
  | none => z

/-- A row of `a + factor * b`, stored where either row is. -/
def axpyRow [Zero α] [One α] [Add α] [Mul α] (factor : α) (a b : List (Nat × α)) :
    List (Nat × α) :=
  (Ascending.union (a.map Prod.fst) (b.map Prod.fst)).map fun j =>
    (j, axpyValue factor (a.lookup j) (b.lookup j))

/-- The matrix `a + factor * b`. -/
def axpy [Zero α] [One α] [Add α] [Mul α] (a : SparseMatrix α) (factor : α) (b : SparseMatrix α) :
    Except Error (SparseMatrix α) :=
  if a.shape = b.shape then .ok ⟨a.ncols, List.zipWith (axpyRow factor) a.rows b.rows⟩
  else .error (.incompatibleShapes .add a.shape b.shape)

/-- The columns stored in a row of a product: those of the rows of the right factor that the row of
the left factor names. -/
def productPattern (b : SparseMatrix α) (entries : List (Nat × α)) : List Nat :=
  entries.foldr (fun e s => Ascending.union (b.rowPattern e.1) s) []

/-- An entry of a product, summed over the stored entries of the left row in their order. -/
def productValue [Zero α] [One α] [Add α] [Mul α] (b : SparseMatrix α) (entries : List (Nat × α))
    (j : Nat) : α :=
  0 + entries.foldl (fun acc e =>
    match b.stored? e.1 j with
    | some y => acc + 1 * e.2 * y
    | none => acc) 0

/-- The product of one row with a matrix. -/
def productRow [Zero α] [One α] [Add α] [Mul α] (b : SparseMatrix α) (entries : List (Nat × α)) :
    List (Nat × α) :=
  (productPattern b entries).map fun j => (j, productValue b entries j)

/-- The matrix product `a * b`. -/
def product [Zero α] [One α] [Add α] [Mul α] (a b : SparseMatrix α) :
    Except Error (SparseMatrix α) :=
  if a.ncols = b.nrows then .ok ⟨b.ncols, a.rows.map (productRow b)⟩
  else .error (.incompatibleShapes .multiply a.shape b.shape)

/-- The product of one row with a vector. -/
def dotRow [Zero α] [Add α] [Mul α] (entries : List (Nat × α)) (x : DenseVector α) : α :=
  entries.foldl (fun acc e => acc + e.2 * x[e.1]?.getD 0) 0

/-- The product of a matrix with a vector. -/
def mulVec [Zero α] [Add α] [Mul α] (a : SparseMatrix α) (x : DenseVector α) :
    Except Error (DenseVector α) :=
  if a.ncols = x.length then .ok (a.rows.map (dotRow · x))
  else .error (.incompatibleShapes .multiply a.shape (.vector x.length))

theorem mem_column {a : SparseMatrix α} {i j : Nat} {x : α} :
    (i, x) ∈ a.column j ↔ a.stored? i j = some x := by
  simp only [column, stored?, row, List.mem_filterMap, Option.map_eq_some_iff, Prod.exists,
    Prod.mk.injEq, List.mem_zipIdx_iff_getElem?]
  constructor
  · rintro ⟨entries, k, hk, y, hy, rfl, rfl⟩
    simpa [hk] using hy
  · intro h
    cases hi : a.rows[i]? with
    | none => simp [hi] at h
    | some entries => exact ⟨entries, i, hi, x, by simpa [hi] using h, rfl, rfl⟩

/-- A sum stores a position where either operand does. -/
@[simp] theorem map_fst_axpyRow [Zero α] [One α] [Add α] [Mul α] (factor : α)
    (a b : List (Nat × α)) :
    (axpyRow factor a b).map Prod.fst = Ascending.union (a.map Prod.fst) (b.map Prod.fst) := by
  simp [axpyRow, Function.comp_def]

/-- A product stores a position where a stored entry of the left row meets a stored entry of the
right factor. -/
@[simp] theorem map_fst_productRow [Zero α] [One α] [Add α] [Mul α] (b : SparseMatrix α)
    (entries : List (Nat × α)) :
    (productRow b entries).map Prod.fst = productPattern b entries := by
  simp [productRow, Function.comp_def]

theorem mem_productPattern {b : SparseMatrix α} {entries : List (Nat × α)} {j : Nat} :
    j ∈ productPattern b entries ↔ ∃ e ∈ entries, j ∈ b.rowPattern e.1 := by
  induction entries with
  | nil => simp [productPattern]
  | cons e entries ih =>
    simp only [productPattern, List.foldr_cons, Ascending.mem_union] at ih ⊢
    simp [ih]

theorem productPattern_ascending (b : SparseMatrix α) (entries : List (Nat × α)) :
    Ascending (productPattern b entries) := by
  induction entries with
  | nil => exact List.Pairwise.nil
  | cons e entries ih => exact Ascending.union_ascending ih

@[simp] theorem shape_transpose (a : SparseMatrix α) :
    a.transpose.shape = .matrix a.ncols a.nrows := by
  simp [transpose, shape, nrows]

@[simp] theorem shape_scale [Mul α] (a : SparseMatrix α) (s : α) : (a.scale s).shape = a.shape := by
  simp [scale]

@[simp] theorem shape_scaledIdentity (n : Nat) (s : α) :
    (scaledIdentity n s).shape = .matrix n n := by
  simp [scaledIdentity, shape, nrows]

example : (mk 3 [[(0, 5), (2, 0)], [(2, 4)]]).transpose =
    mk 2 [[(0, 5)], [], [(0, 0), (1, 4)]] := by decide

example : axpy (mk 2 [[(0, 5)], []]) (-1 : Int) (mk 2 [[(0, 5), (1, 2)], [(1, 3)]]) =
    .ok (mk 2 [[(0, 0), (1, -2)], [(1, -3)]]) := rfl

example : product (mk 2 [[(0, 1), (1, 1)]]) (mk 1 [[(0, 4)], [(0, (-4 : Int))]]) =
    .ok (mk 1 [[(0, 0)]]) := rfl

end BlockSparse.SparseMatrix
