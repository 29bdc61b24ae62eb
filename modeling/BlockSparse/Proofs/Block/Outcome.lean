import BlockSparse.Proofs.Block.Resolve
import Mathlib.Algebra.Ring.Int.Defs

/-! What resolution gives, cell by cell. A grid that has sizes is resolved exactly when each of its
cells evaluates to something for which its place has room. The first cell that does not is reported,
row after row, and only once all sizes are known. -/
namespace BlockSparse
variable {α : Type} [Zero α] [One α] [Add α] [Mul α] [Neg α] [BEq α]

/-- A cell that can be resolved in its place: it has a value, which is no vector, and a nonzero
scalar only where a square block is wanted. -/
structure Resolvable (sizes : BlockSizes) (i j : Nat) (e : Expr α) : Prop where
  evaluates : ∃ v, e.eval = .ok v
  not_vector : ∀ x, e.eval ≠ .ok (.vector x)
  square : ∀ s, e.eval = .ok (.scalar s) → (s == 0) = false → sizes.rowSize i = sizes.colSize j

/-- Why a cell cannot be resolved in its place. -/
inductive Unresolvable (sizes : BlockSizes) : Nat × Nat × Expr α → Error → Prop
  | evaluation {i j : Nat} {e : Expr α} {err : Error} (h : e.eval = .error err) :
    Unresolvable sizes (i, j, e) err
  | vector {i j : Nat} {e : Expr α} {x : DenseVector α} (h : e.eval = .ok (.vector x)) :
    Unresolvable sizes (i, j, e) (.unsupported (.vectorCell i j))
  | identity {i j : Nat} {e : Expr α} {s : α} (h : e.eval = .ok (.scalar s))
    (hs : (s == 0) = false) (hsize : sizes.rowSize i ≠ sizes.colSize j) :
    Unresolvable sizes (i, j, e) (.nonSquareIdentity (sizes.rowSize i) (sizes.colSize j))

/-- What stands in a place once the cell there is resolved. -/
structure ResolvesTo (sizes : BlockSizes) (i j : Nat) (e : Expr α) (cell : ResolvedBlock α) :
    Prop where
  matrix_iff : ∀ a, cell = .matrix a ↔ e.eval = .ok (.matrix a)
  zero_iff : cell = .zero ↔ ∃ s, e.eval = .ok (.scalar s) ∧ (s == 0) = true
  identity_iff : ∀ s, cell = .identity s ↔ e.eval = .ok (.scalar s) ∧ (s == 0) = false
  shape : ∀ a, cell = .matrix a → a.shape = .matrix (sizes.rowSize i) (sizes.colSize j)

section Cell
variable {sizes : BlockSizes} {i j : Nat} {e : Expr α} {v : Value α} {cell : ResolvedBlock α}

lemma resolvable_iff : Resolvable sizes i j e ↔ ∀ err, ¬ Unresolvable sizes (i, j, e) err := by
  constructor
  · intro h err hbad
    cases hbad with
    | evaluation he =>
      obtain ⟨v, hv⟩ := h.evaluates
      rw [he] at hv
      cases hv
    | vector hx => exact h.not_vector _ hx
    | identity he hs hsize => exact hsize (h.square _ he hs)
  · intro h
    refine ⟨?_, fun x hx => h _ (.vector hx), fun s he hs => ?_⟩
    · cases he : e.eval with
      | error err => exact absurd (.evaluation he) (h err)
      | ok v => exact ⟨v, rfl⟩
    · by_contra hsize
      exact h _ (.identity he hs hsize)

lemma ofValue_eq_error_iff (h : e.eval = .ok v) {err : Error} :
    ResolvedBlock.ofValue i j (sizes.rowSize i) (sizes.colSize j) v = .error err ↔
      Unresolvable sizes (i, j, e) err := by
  constructor
  · intro herr
    cases v with
    | scalar s =>
      rw [ResolvedBlock.ofValue] at herr
      split at herr
      · cases herr
      · rename_i hs
        split at herr
        · cases herr
        · rename_i hsize
          cases herr
          exact .identity h (Bool.eq_false_iff.2 hs) hsize
    | matrix a => cases herr
    | vector x =>
      cases herr
      exact .vector h
  · intro hbad
    cases hbad with
    | evaluation he =>
      rw [h] at he
      cases he
    | vector hx =>
      rw [h] at hx
      cases hx
      rfl
    | identity he hs hsize =>
      rw [h] at he
      cases he
      rw [ResolvedBlock.ofValue, if_neg (by simp [hs]), if_neg hsize]

lemma resolvesTo_of_ofValue (h : e.eval = .ok v)
    (hfit : ∀ t, v.shape? = some t → sizes.FitTo i j t)
    (hcell : ResolvedBlock.ofValue i j (sizes.rowSize i) (sizes.colSize j) v = .ok cell) :
    ResolvesTo sizes i j e cell := by
  cases v with
  | scalar s =>
    rw [ResolvedBlock.ofValue] at hcell
    split at hcell
    · rename_i hs
      cases hcell
      constructor <;> simp_all
    · rename_i hs
      split at hcell
      · cases hcell
        constructor <;> simp_all
      · cases hcell
  | matrix a =>
    cases hcell
    obtain ⟨hrows, hcols⟩ := hfit a.shape rfl
    have hshape : a.shape = .matrix (sizes.rowSize i) (sizes.colSize j) := by
      rw [SparseMatrix.shape, ← hcols a.ncols rfl, ← hrows]
      rfl
    constructor <;> simp_all
  | vector x => cases hcell

end Cell

namespace BlockMatrix
variable {b : BlockMatrix α}

section Visit
variable {sizes : BlockSizes} {i j : Nat} {e : Expr α}

/-- What is done at a place, once the sizes are known: the cell is evaluated and fitted in. -/
lemma visit_eq_error_iff {s : Option Shape} (hs : e.shape = .ok s) {err : Error} :
    ((Expr.run e).result >>= ResolvedBlock.ofValue i j (sizes.rowSize i) (sizes.colSize j)) =
      .error err ↔ Unresolvable sizes (i, j, e) err := by
  rw [← Expr.eval_of_shape hs, Traversal.bind_eq_error_iff]
  constructor
  · rintro (h | ⟨v, hv, h⟩)
    · exact .evaluation h
    · exact (ofValue_eq_error_iff hv).1 h
  · intro h
    cases he : e.eval with
    | error err' =>
      cases h with
      | evaluation h => exact .inl (he.symm.trans h)
      | vector h =>
        rw [he] at h
        cases h
      | identity h =>
        rw [he] at h
        cases h
    | ok v => exact .inr ⟨v, rfl, (ofValue_eq_error_iff he).2 h⟩

end Visit

/-- Once the sizes are known, resolution fails with the first cell that cannot be resolved. -/
lemma resolve_eq_error_iff (hb : b.WellFormed) {sizes : BlockSizes} (h : b.sizes = .ok sizes)
    {err : Error} : b.resolve = .error err ↔ First (Unresolvable sizes) b.entries err := by
  obtain ⟨_, _, hshapes⟩ := sizes_spec h
  have hcells : b.traverse (fun i j e => (Expr.run e).result >>=
      ResolvedBlock.ofValue i j (sizes.rowSize i) (sizes.colSize j)) = .error err ↔
        First (Unresolvable sizes) b.entries err := by
    refine Grid.traverse_eq_error_iff.trans (First.congr ?_)
    rintro ⟨i, j, e⟩ hmem err'
    obtain ⟨s, hs, _⟩ := hshapes i j e ((Grid.mem_entries_iff hb).1 hmem)
    exact visit_eq_error_iff hs
  rw [← hcells, resolve_eq, h, Traversal.bind_eq_error_iff]
  constructor
  · rintro (h | ⟨_, h, herr⟩)
    · cases h
    · cases h
      obtain herr | ⟨_, _, h⟩ := Traversal.bind_eq_error_iff.1 herr
      · exact herr
      · cases h
  · exact fun herr => .inr ⟨sizes, rfl, Traversal.bind_eq_error_iff.2 (.inl herr)⟩

lemma resolve_of_sizes_error {err : Error} (h : b.sizes = .error err) :
    b.resolve = .error err := by
  rw [resolve_eq, h]
  rfl

/-- Resolution succeeds exactly when there are sizes and every cell can be resolved in its place.
It keeps the sizes and the places of the grid, and in each place stands what the value of the cell
stands for there. Otherwise it fails as the sizes do, or as the first cell that cannot be resolved
does. -/
theorem resolve_outcome (hb : b.WellFormed) :
    ((∃ r, b.resolve = .ok r) ↔ ∃ sizes, b.sizes = .ok sizes ∧
      ∀ i j e, b.get? i j = some e → Resolvable sizes i j e) ∧
    (∀ r, b.resolve = .ok r → b.sizes = .ok r.sizes ∧
      (r.sizes.rowSizes.length = b.numRows ∧ r.sizes.colSizes.length = b.numCols) ∧
      (∀ i j, (r.cells.get? i j).isSome ↔ i < b.numRows ∧ j < b.numCols) ∧
      ∀ i j e, b.get? i j = some e →
        ∃ cell, r.cells.get? i j = some cell ∧ ResolvesTo r.sizes i j e cell) ∧
    (∀ err, b.sizes = .error err → b.resolve = .error err) ∧
    ∀ sizes, b.sizes = .ok sizes → ∀ err, b.resolve = .error err ↔
      First (Unresolvable sizes) b.entries err := by
  refine ⟨⟨?_, ?_⟩, fun r h => ?_, fun err => resolve_of_sizes_error, fun sizes h err =>
    resolve_eq_error_iff hb h⟩
  · rintro ⟨r, h⟩
    obtain ⟨hsizes, hcells⟩ := resolve_eq_ok_iff.1 h
    refine ⟨r.sizes, hsizes, fun i j e he => resolvable_iff.2 fun err hbad => ?_⟩
    obtain ⟨s, hs, _⟩ := (sizes_spec hsizes).2.2 i j e he
    obtain ⟨cell, _, hcell⟩ := Grid.exists_of_traverse_left hcells he
    rw [(visit_eq_error_iff hs).2 hbad] at hcell
    cases hcell
  · rintro ⟨sizes, hsizes, hcells⟩
    cases h : b.resolve with
    | ok r => exact ⟨r, rfl⟩
    | error err =>
      obtain ⟨⟨i, j, e⟩, hmem, hbad⟩ := ((resolve_eq_error_iff hb hsizes).1 h).mem
      exact absurd hbad (resolvable_iff.1 (hcells i j e ((Grid.mem_entries_iff hb).1 hmem)) err)
  · obtain ⟨hsizes, hcells⟩ := resolve_eq_ok_iff.1 h
    obtain ⟨hrows, hcols, hshapes⟩ := sizes_spec hsizes
    obtain ⟨hnumRows, hnumCols⟩ := Grid.size_of_traverse hcells
    refine ⟨hsizes, ⟨hrows, hcols⟩, fun i j => ?_, fun i j e he => ?_⟩
    · rw [Grid.isSome_get?_iff (Grid.wellFormed_of_traverse hb hcells), hnumRows, hnumCols]
    · obtain ⟨s, hs, hfit⟩ := hshapes i j e he
      obtain ⟨cell, hcell, hvalue⟩ := Grid.exists_of_traverse_left hcells he
      obtain ⟨v, hv, hvalue⟩ := Traversal.bind_eq_ok_iff.1 hvalue
      have heval : e.eval = .ok v := (Expr.eval_of_shape hs).trans hv
      refine ⟨cell, hcell, resolvesTo_of_ofValue heval (fun t ht => hfit t ?_) hvalue⟩
      rw [← Expr.shape_of_run hs hv, ht]

/-- A grid with a scalar beside the diagonal, in a place that is not square. -/
def besideDiagonal (s : Int) : BlockMatrix Int := ⟨2, 2,
  [.matrix ⟨1, [[(0, 1)], [(0, 0)]]⟩, .product [.scalar 2, .scalar s],
    .scalar 0, .transpose (.matrix ⟨1, [[(0, 4)], [], [(0, 5)]]⟩)]⟩

theorem resolve_outcome_besideDiagonal :
    (besideDiagonal 0).WellFormed ∧ (besideDiagonal 3).WellFormed ∧
    (∃ sizes, (besideDiagonal 0).sizes = .ok sizes ∧
      ∀ i j e, (besideDiagonal 0).get? i j = some e → Resolvable sizes i j e) ∧
    First (Unresolvable ⟨[2, 1], [1, 3]⟩) (besideDiagonal 3).entries (.nonSquareIdentity 2 3) := by
  have hzero : (besideDiagonal 0).WellFormed := by decide
  have hthree : (besideDiagonal 3).WellFormed := by decide
  have hsizes : (besideDiagonal 3).sizes = .ok ⟨[2, 1], [1, 3]⟩ := rfl
  exact ⟨hzero, hthree, (resolve_outcome hzero).1.1 ⟨_, rfl⟩,
    ((resolve_outcome hthree).2.2.2 _ hsizes _).1 rfl⟩

end BlockMatrix
end BlockSparse
