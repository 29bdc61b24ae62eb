import BlockSparse.Proofs.Block.KeepBlocks
import BlockSparse.Proofs.Expr.Yield

/-! What a resolved grid says about the grid it was made from. Each of its cells stands for the
value of the expression at its place, and every block row and block column has a matrix that gives
its size. Nothing else is asked of it, so a grid can be resolved by naming the resolved one. -/
namespace BlockSparse
variable {α : Type} [Zero α] [BEq α]

namespace ResolvedBlock
variable {cell : ResolvedBlock α} {v : Value α} {i j rows cols : Nat}

/-- A cell stands for a matrix itself, or for the scalar whose multiple of the identity it is. -/
inductive StandsFor : ResolvedBlock α → Value α → Prop
  | matrix (a : SparseMatrix α) : StandsFor (.matrix a) (.matrix a)
  | zero {s : α} (h : (s == 0) = true) : StandsFor .zero (.scalar s)
  | identity {s : α} (h : (s == 0) = false) : StandsFor (.identity s) (.scalar s)

lemma standsFor_of_ofValue (h : ofValue i j rows cols v = .ok cell) : cell.StandsFor v := by
  cases v with
  | scalar s =>
    rw [ofValue] at h
    split at h
    · rename_i hs
      cases h
      exact .zero hs
    · rename_i hs
      split at h
      · cases h
        exact .identity (Bool.eq_false_iff.2 hs)
      · cases h
  | matrix a =>
    cases h
    exact .matrix a
  | vector x => cases h

lemma StandsFor.ofValue_eq (h : cell.StandsFor v) (hfit : cell.Fits rows cols) :
    ofValue i j rows cols v = .ok cell := by
  cases h with
  | matrix a => rfl
  | zero hs => rw [ofValue, if_pos hs]
  | identity hs =>
    have hsquare : rows = cols := hfit
    rw [ofValue, if_neg (Bool.eq_false_iff.1 hs), if_pos hsquare]

/-- Only a matrix stands for a value that has a shape. -/
lemma StandsFor.eq_matrix {t : Shape} (h : cell.StandsFor v) (ht : v.shape? = some t) :
    ∃ a, cell = .matrix a ∧ t = a.shape := by
  cases h with
  | matrix a =>
    cases ht
    exact ⟨a, rfl, rfl⟩
  | zero hs => cases ht
  | identity hs => cases ht

end ResolvedBlock

variable [One α] [Add α] [Mul α] [Neg α] {b : BlockMatrix α} {r : ResolvedGrid α}

/-- A resolved grid has, at each place of a block matrix, a cell that stands for the value there. -/
structure ResolvedGrid.Resolves (r : ResolvedGrid α) (b : BlockMatrix α) : Prop where
  wellFormed : r.WellFormed
  determined : r.Determined
  numRows : r.cells.numRows = b.numRows
  numCols : r.cells.numCols = b.numCols
  cells : ∀ i j e cell, b.get? i j = some e → r.cells.get? i j = some cell →
    ∃ v, e.eval = .ok v ∧ cell.StandsFor v

namespace ResolvedGrid.Resolves

/-- The sizes of the block matrix are those of the matrices that stand in the resolved grid. -/
theorem sizes_eq (h : r.Resolves b) (hb : b.WellFormed) : b.sizes = .ok r.sizes := by
  have hcell : ∀ i j e, b.get? i j = some e →
      ∃ v cell, e.eval = .ok v ∧ r.cells.get? i j = some cell ∧ cell.StandsFor v := by
    intro i j e he
    obtain ⟨cell, hcell⟩ :=
      Grid.exists_get?_of_size_eq h.wellFormed.cells h.numRows h.numCols he
    obtain ⟨v, hv, hstands⟩ := h.cells i j e cell he hcell
    exact ⟨v, cell, hv, hcell, hstands⟩
  have hshapes : b.traverse (fun _ _ e => e.shape) =
      .ok (b.mapIdx fun _ _ e => e.eval.toOption.bind Value.shape?) := by
    refine Grid.traverse_eq_ok_of_forall hb fun i j e he => ?_
    obtain ⟨v, _, hv, _⟩ := hcell i j e he
    rw [Expr.shape_of_run_eq_ok (Expr.eval_eq_ok_iff.1 hv), hv]
    rfl
  -- a matrix of the resolved grid is the value of the expression at its place
  have hmatrix : ∀ i j a, r.cells.get? i j = some (.matrix a) →
      (b.mapIdx fun _ _ e => e.eval.toOption.bind Value.shape?).get? i j = some (some a.shape) := by
    intro i j a ha
    obtain ⟨e, he⟩ := Grid.exists_get?_of_size_eq hb h.numRows.symm h.numCols.symm ha
    obtain ⟨v, hv, hstands⟩ := h.cells i j e _ he ha
    cases hstands
    rw [Grid.get?_mapIdx, he, Option.map_some, hv]
    rfl
  refine Traversal.bind_eq_ok_iff.2 ⟨_, hshapes, BlockSizes.ofShapes_eq_ok_iff.2
    ⟨⟨h.wellFormed.rows.trans h.numRows, h.wellFormed.cols.trans h.numCols⟩,
      fun i j t ht => ?_, fun i hi => ?_, fun j hj => ?_⟩⟩
  · rw [Grid.get?_mapIdx, Option.map_eq_some_iff] at ht
    obtain ⟨e, he, ht⟩ := ht
    obtain ⟨v, cell, hv, hget, hstands⟩ := hcell i j e he
    rw [hv] at ht
    obtain ⟨a, rfl, rfl⟩ := hstands.eq_matrix ht
    obtain ⟨_, hrows, hcols⟩ := h.wellFormed.fits i j _ hget
    refine ⟨hrows, fun n hn => ?_⟩
    cases hn
    exact hcols
  · obtain ⟨j, a, ha⟩ := h.determined.rows i (hi.trans_eq h.numRows.symm)
    exact ⟨j, a.shape, hmatrix i j a ha⟩
  · obtain ⟨i, a, ha⟩ := h.determined.cols j (hj.trans_eq h.numCols.symm)
    exact ⟨i, a.shape, a.ncols, hmatrix i j a ha, rfl⟩

/-- Nothing else is needed for a resolved grid to be what resolution gives. -/
lemma resolve_eq (h : r.Resolves b) (hb : b.WellFormed) : b.resolve = .ok r := by
  refine BlockMatrix.resolve_eq_ok_iff.2 ⟨h.sizes_eq hb, Grid.traverse_eq_ok_of_get? hb
    h.wellFormed.cells h.numRows h.numCols fun i j e cell hget hcell => ?_⟩
  obtain ⟨v, hv, hstands⟩ := h.cells i j e cell hget hcell
  rw [Expr.eval_eq_ok_iff.1 hv]
  exact hstands.ofValue_eq (h.wellFormed.fits i j cell hcell)

end ResolvedGrid.Resolves

namespace BlockMatrix

/-- Resolving a grid gives the one resolved grid whose cells stand for its values. -/
theorem resolve_eq_ok_iff_resolves (hb : b.WellFormed)
    (he : ∀ e ∈ b.cells, e.WellFormed) : b.resolve = .ok r ↔ r.Resolves b := by
  refine ⟨fun h => ?_, fun h => h.resolve_eq hb⟩
  obtain ⟨_, hcells⟩ := resolve_eq_ok_iff.1 h
  obtain ⟨hrows, hcols⟩ := Grid.size_of_traverse hcells
  refine ⟨wellFormed_of_resolve hb he h, determined_of_resolve h, hrows, hcols, ?_⟩
  intro i j e cell hget hcell
  obtain ⟨cell', hcell', hvalue⟩ := Grid.exists_of_traverse_left hcells hget
  obtain ⟨v, hv, hvalue⟩ := Traversal.bind_eq_ok_iff.1 hvalue
  cases hcell.symm.trans hcell'
  exact ⟨v, Expr.eval_eq_ok_iff.2 hv, ResolvedBlock.standsFor_of_ofValue hvalue⟩

lemma resolve_of_assemble {strategy : Strategy} {result : Assembled α}
    (h : b.assemble strategy = .ok result) : ∃ r, b.resolve = .ok r := by
  rw [assemble_eq] at h
  obtain ⟨r, hr, _⟩ := Traversal.bind_eq_ok_iff.1 h
  exact ⟨r, hr⟩

/-- A single matrix is made of the grids that are resolved and whose sizes can be added up. -/
theorem exists_assemble_iff (hb : b.WellFormed) (he : ∀ e ∈ b.cells, e.WellFormed)
    {strategy : Strategy} (hs : strategy ≠ .keepBlocks) :
    (∃ result, b.assemble strategy = .ok result) ↔
      ∃ r : ResolvedGrid α, r.Resolves b ∧ r.sizes.Bounded := by
  constructor
  · rintro ⟨result, h⟩
    obtain ⟨r, hr⟩ := resolve_of_assemble h
    have hresolves := (resolve_eq_ok_iff_resolves hb he).1 hr
    exact ⟨r, hresolves, ((assemble_eq_ok_iff hr hresolves.wellFormed hs).1 h).1⟩
  · rintro ⟨r, hresolves, hbounded⟩
    exact ⟨_, (assemble_eq_ok_iff (hresolves.resolve_eq hb) hresolves.wellFormed hs).2
      ⟨hbounded, rfl⟩⟩

end BlockMatrix
end BlockSparse
