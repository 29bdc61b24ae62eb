import BlockSparse.Proofs.Expr.Calls
import Mathlib.Algebra.Ring.Int.Defs

/-! What shape inference promises of evaluation. The shape inferred for an expression is that of its
value, also for every expression on the way, so kernels only meet operands that fit. Of the errors
about shapes one is left to evaluation, that a scalar stands beside a matrix that is not square; by
then kernels may have run. -/
namespace BlockSparse.Expr
variable {α : Type} [Zero α] [One α] [Add α] [Mul α] [Neg α] [BEq α]
variable {e : Expr α} {s : Option Shape} {v : Value α} {err : Error}

lemma log_evalLogged_of_shape (h : e.shape = .ok s) : e.evalLogged.log = (run e).log := by
  rw [evalLogged, h, Logged.log_bind]
  rfl

lemma shape_eq_none_iff (h : e.eval = .ok v) : e.shape = .ok none ↔ ∃ s, v = .scalar s := by
  rw [shape_of_eval h]
  cases v <;> simp

lemma shape_eq_vector_iff (h : e.eval = .ok v) (n : Nat) :
    e.shape = .ok (some (.vector n)) ↔ ∃ x, v = .vector x ∧ x.length = n := by
  rw [shape_of_eval h]
  cases v <;> simp [SparseMatrix.shape]

lemma shape_eq_matrix_iff (h : e.eval = .ok v) (m n : Nat) :
    e.shape = .ok (some (.matrix m n)) ↔ ∃ a, v = .matrix a ∧ a.nrows = m ∧ a.ncols = n := by
  rw [shape_of_eval h]
  cases v <;> simp [SparseMatrix.shape]

/-- The shape inferred for an expression is that of its value: none for a scalar, and otherwise the
length of a vector or the size of a matrix. The same holds for every expression that is evaluated on
the way, and the kernels called there get operands that fit and succeed on them. -/
theorem shape_propagates (e : Expr α) :
    (∀ v, e.eval = .ok v → e.shape = .ok v.shape? ∧
      (e.shape = .ok none ↔ ∃ s, v = .scalar s) ∧
      (∀ n, e.shape = .ok (some (.vector n)) ↔ ∃ x, v = .vector x ∧ x.length = n) ∧
      ∀ m n, e.shape = .ok (some (.matrix m n)) ↔ ∃ a, v = .matrix a ∧ a.nrows = m ∧ a.ncols = n) ∧
    (∀ s, e.shape = .ok s → ∀ f, Reaches e f →
      (∃ t, f.shape = .ok t ∧ ∀ v, (run f).result = .ok v → v.shape? = t) ∧
      ∀ k, Applies f k → k.Fits ∧ ∃ v, (run f).result = .ok v ∧ k.run = .ok v) ∧
    ∀ ev ∈ e.evalLogged.log, ∃ k, e.Calls k ∧ k.Fits ∧ k.event? = some ev := by
  refine ⟨fun v h => ?_, fun s hs f hf => ?_, fun ev hev => ?_⟩
  · exact ⟨shape_of_eval h, shape_eq_none_iff h, shape_eq_vector_iff h, shape_eq_matrix_iff h⟩
  · obtain ⟨t, ht⟩ := shape_of_reaches hf hs
    refine ⟨⟨t, ht, fun v hv => shape_of_run ht hv⟩, fun k hk => ?_⟩
    have hfits := fits_of_applies hk ht
    obtain ⟨v, hv⟩ := Kernel.run_of_fits hfits
    exact ⟨hfits, v, (result_of_applies hk).trans hv, hv⟩
  · cases hs : e.shape with
    | error err =>
      rw [log_evalLogged_of_shape_error hs] at hev
      cases hev
    | ok s =>
      rw [log_evalLogged_of_shape hs] at hev
      obtain ⟨k, ⟨f, hf, hk⟩, hkev⟩ := (notes_run e ev).1 hev
      obtain ⟨t, ht⟩ := shape_of_reaches hf hs
      exact ⟨k, ⟨f, hf, hk⟩, fits_of_applies hk ht, hkev⟩

lemma log_eq_nil_iff (e : Expr α) : (run e).log = [] ↔ ∀ k, e.Calls k → k.event? = none := by
  rw [List.eq_nil_iff_forall_not_mem]
  constructor
  · intro h k hk
    rw [Option.eq_none_iff_forall_ne_some]
    intro ev hev
    exact h ev ((notes_run e ev).2 ⟨k, hk, hev⟩)
  · intro h ev hev
    obtain ⟨k, hk, hkev⟩ := (notes_run e ev).1 hev
    rw [h k hk] at hkev
    cases hkev

/-- An error about shapes that evaluation adds to those of shape inference. -/
lemma nonSquareIdentity_of_shape (hs : e.shape = .ok s) (h : e.eval = .error err)
    (herr : err.isShapeError = true) : First BadSum e.sums err ∧
      ∃ rows cols, rows ≠ cols ∧ err = .nonSquareIdentity rows cols := by
  rw [eval_of_shape hs] at h
  obtain ⟨v, hv, _, _⟩ | ⟨err', herr', hfirst⟩ := decided_run hs
  · rw [h] at hv
    cases hv
  · rw [h] at herr'
    cases herr'
    refine ⟨hfirst, ?_⟩
    obtain ⟨p, _, hbad⟩ := hfirst.mem
    obtain hsq | rfl | rfl := hbad.cases_error
    · exact hsq
    · cases herr
    · cases herr

/-- An error about shapes comes with an empty log exactly when it is found by shape inference or no
noted kernel is called before it. What shape inference does not find is the scalar of the first bad
sum, which stands beside a matrix that is not square. -/
theorem log_of_shapeError (h : e.eval = .error err) (herr : err.isShapeError = true) :
    (e.evalLogged.log = [] ↔
      e.shape = .error err ∨ ∀ k, e.Calls k → k.event? = none) ∧
    (e.shape = .error err ∨ (∃ s, e.shape = .ok s) ∧ First BadSum e.sums err ∧
      ∃ rows cols, rows ≠ cols ∧ err = .nonSquareIdentity rows cols) := by
  cases hs : e.shape with
  | error err' =>
    rw [eval_of_shape_error hs] at h
    cases h
    exact ⟨iff_of_true (log_evalLogged_of_shape_error hs) (.inl rfl), .inl rfl⟩
  | ok s =>
    rw [log_evalLogged_of_shape hs, log_eq_nil_iff]
    refine ⟨?_, .inr ⟨⟨s, rfl⟩, nonSquareIdentity_of_shape hs h herr⟩⟩
    simp

/-- The expression `2 * A + 1`, for a matrix of one row and two columns. -/
def shiftedRow : Expr Int :=
  .sum .add (.product [.scalar 2, .matrix ⟨2, [[(0, 1), (1, 1)]]⟩]) (.scalar 1)

theorem log_of_shapeError_shiftedRow :
    shiftedRow.eval = .error (.nonSquareIdentity 1 2) ∧
    (Error.nonSquareIdentity 1 2).isShapeError = true ∧
    (shiftedRow.evalLogged.log = [] ↔ shiftedRow.shape = .error (.nonSquareIdentity 1 2) ∨
      ∀ k, shiftedRow.Calls k → k.event? = none) ∧
    First BadSum shiftedRow.sums (.nonSquareIdentity 1 2) := by
  have heval : shiftedRow.eval = .error (.nonSquareIdentity 1 2) := rfl
  obtain ⟨hlog, hshape | ⟨_, hfirst, _⟩⟩ := log_of_shapeError heval rfl
  · cases hshape
  · exact ⟨heval, rfl, hlog, hfirst⟩

/-- The matrix has been scaled before the scalar is found to stand beside one that is not square. -/
theorem shapeError_after_kernel : ¬ ∀ (e : Expr Int) (err : Error), e.eval = .error err →
    err.isShapeError = true → e.evalLogged.log = [] := by
  intro h
  have hlog := h shiftedRow (.nonSquareIdentity 1 2) rfl rfl
  cases hlog

end BlockSparse.Expr
