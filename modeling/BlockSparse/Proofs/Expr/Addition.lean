import BlockSparse.Proofs.Expr.Yield
import BlockSparse.Proofs.Value.Addition
import Mathlib.Algebra.Ring.Int.Defs

/-! Laws of addition for expressions, in exact arithmetic. Whatever comes to a scalar zero is
neutral beside every expression, be it a scalar, a vector, a matrix of any shape or one that fails.
Operands of a sum may be exchanged, and a difference is the sum with the negative. -/
namespace BlockSparse.Expr
variable {α : Type} [CommRing α] [DecidableEq α] {e f z : Expr α} {u v w : Value α}

/-- An expression of the shape of its operand goes on from the value of the operand, unless the
operand fails. -/
lemma eval_eq_bind {next : Value α → Except Error (Value α)} (hshape : f.shape = e.shape)
    (hrun : (run f).result = (run e).result >>= next) : f.eval = e.eval >>= next := by
  rw [eval_eq, eval_eq, hshape, hrun, bind_assoc]

lemma eval_neg (e : Expr α) :
    (-e).eval = e.eval >>= fun v => (Value.mul (.scalar (-1)) v).result := by
  have hshape : (-e).shape = e.shape := by
    change (e.shape >>= fun t => Shape.product none t) = e.shape
    cases e.shape <;> rfl
  have hrun : (run (-e)).result =
      (run e).result >>= fun v => (Value.mul (.scalar (-1)) v).result := by
    change (runChain [.scalar (-1), e]).result = _
    rw [result_runChain_cons, run, runChain]
    rfl
  exact eval_eq_bind hshape hrun

section Zero

/-- Beside a scalar it depends on the left operand alone whether a sum has a value. -/
lemma eval_sum_scalar (op : SumOp) (e : Expr α) {c : α} (hz : z.eval = .ok (.scalar c)) :
    (sum op e z).eval = e.eval >>= fun u => (Value.add op u (.scalar c)).result := by
  have hshape : (sum op e z).shape = e.shape := by
    rw [shape, shape_of_eval hz]
    cases e.shape with
    | error err => rfl
    | ok s => exact Shape.sum_none_right op.operation s
  have hrun : (run (sum op e z)).result =
      (run e).result >>= fun u => (Value.add op u (.scalar c)).result := by
    rw [result_run_sum, run_of_eval hz]
    rfl
  exact eval_eq_bind hshape hrun

lemma eval_scalar_sum (op : SumOp) (e : Expr α) {c : α} (hz : z.eval = .ok (.scalar c)) :
    (sum op z e).eval = e.eval >>= fun v => (Value.add op (.scalar c) v).result := by
  have hshape : (sum op z e).shape = e.shape := by
    rw [shape, shape_of_eval hz]
    cases e.shape <;> rfl
  have hrun : (run (sum op z e)).result =
      (run e).result >>= fun v => (Value.add op (.scalar c) v).result := by
    rw [result_run_sum, run_of_eval hz]
    rfl
  exact eval_eq_bind hshape hrun

/-- An expression that comes to a scalar zero changes nothing where it is added or subtracted, and
what is subtracted from it is negated. -/
theorem eval_beside_zero (hz : z.eval = .ok (.scalar 0)) (e : Expr α) :
    (e + z).eval = e.eval ∧ (z + e).eval = e.eval ∧ (e - z).eval = e.eval ∧
      (z - e).eval = (-e).eval := by
  refine ⟨?_, ?_, ?_, ?_⟩
  · refine (eval_sum_scalar .add e hz).trans ?_
    simp only [Value.result_add_zero]
    exact bind_pure e.eval
  · refine (eval_scalar_sum .add e hz).trans ?_
    simp only [Value.result_zero_add]
    exact bind_pure e.eval
  · refine (eval_sum_scalar .subtract e hz).trans ?_
    simp only [Value.result_add_zero]
    exact bind_pure e.eval
  · rw [eval_neg]
    refine (eval_scalar_sum .subtract e hz).trans ?_
    simp only [Value.result_zero_sub]

/-- Twice the difference of three and one plus two. -/
def twiceNothing : Expr Int :=
  .product [.scalar 2, .sum .subtract (.scalar 3) (.sum .add (.scalar 1) (.scalar 2))]

/-- Nothing is stored on the diagonal of a matrix that zero is added to, nor is the matrix refused
for not being square. -/
theorem eval_beside_zero_twiceNothing : twiceNothing.eval = .ok (.scalar 0) ∧
    (.matrix ⟨3, [[(1, 5)], []]⟩ + twiceNothing).eval = .ok (.matrix ⟨3, [[(1, 5)], []]⟩) ∧
    (twiceNothing - .vector [4, -1]).eval = .ok (.vector [-4, 1]) ∧
    (.transpose (.vector [7]) - twiceNothing).eval = .error (.unsupported .vectorTranspose) := by
  have hz : twiceNothing.eval = .ok (.scalar 0) := rfl
  exact ⟨hz, (eval_beside_zero hz _).1, (eval_beside_zero hz (.vector [4, -1])).2.2.2,
    (eval_beside_zero hz _).2.2.1⟩

end Zero

section Reorder

lemma eval_sum (op : SumOp) (he : e.eval = .ok u) (hf : f.eval = .ok v) :
    (sum op e f).eval = Value.checkedAdd op u v := by
  rw [eval_eq, shape, shape_of_eval he, shape_of_eval hf, result_run_sum, run_of_eval he,
    run_of_eval hf]
  rfl

lemma exists_of_eval_sum {op : SumOp} (h : (sum op e f).eval = .ok w) :
    ∃ u v, e.eval = .ok u ∧ f.eval = .ok v := by
  obtain ⟨u, v, hu, hv, _⟩ := exists_of_run_sum (run_of_eval h)
  exact ⟨u, v, eval_eq_ok_iff.2 hu, eval_eq_ok_iff.2 hv⟩

lemma exists_neg (hf : f.eval = .ok v) :
    ∃ w, (Value.mul (.scalar (-1)) v).result = .ok w ∧ (-f).eval = .ok w := by
  obtain ⟨w, hw, _⟩ := Value.mul_outcome (u := .scalar (-1)) (Shape.product_none_left v.shape?)
  refine ⟨w, hw, ?_⟩
  rw [eval_neg, hf]
  exact hw

lemma exists_of_eval_neg (h : (-f).eval = .ok w) : ∃ v, f.eval = .ok v := by
  rw [eval_neg, Traversal.bind_eq_ok_iff] at h
  obtain ⟨v, hv, _⟩ := h
  exact ⟨v, hv⟩

/-- Sums of the same values in the two orders are the same, or fail alike. -/
lemma eval_add_comm (he : e.WellFormed) (hf : f.WellFormed) (hu : e.eval = .ok u)
    (hv : f.eval = .ok v) : (f + e).eval = (e + f).eval.mapError Error.swapOperands := by
  have hcomm := Value.checkedAdd_comm (wellFormed_of_eval he hu) (wellFormed_of_eval hf hv)
  rw [← eval_sum .add hu hv, ← eval_sum .add hv hu] at hcomm
  exact hcomm

lemma eval_add_neg (he : e.WellFormed) (hf : f.WellFormed) (hu : e.eval = .ok u)
    (hv : f.eval = .ok v) :
    (e + -f).eval = (e - f).eval.mapError (Error.withOperation .add) := by
  obtain ⟨w, hw, hneg⟩ := exists_neg hv
  have hsum := Value.checkedAdd_neg (wellFormed_of_eval he hu) (wellFormed_of_eval hf hv) hw
  rw [← eval_sum .add hu hneg, ← eval_sum .subtract hu hv] at hsum
  exact hsum

lemma eval_add_exchange (he : e.WellFormed) (hf : f.WellFormed) (h : (e + f).eval = .ok w) :
    (f + e).eval = .ok w := by
  obtain ⟨u, v, hu, hv⟩ := exists_of_eval_sum h
  rw [eval_add_comm he hf hu hv, Traversal.mapError_eq_ok_iff, h]

lemma eval_sub_eq_ok_iff (he : e.WellFormed) (hf : f.WellFormed) :
    (e - f).eval = .ok w ↔ (e + -f).eval = .ok w := by
  constructor
  · intro h
    obtain ⟨u, v, hu, hv⟩ := exists_of_eval_sum h
    rw [eval_add_neg he hf hu hv, Traversal.mapError_eq_ok_iff, h]
  · intro h
    obtain ⟨u, x, hu, hx⟩ := exists_of_eval_sum h
    obtain ⟨v, hv⟩ := exists_of_eval_neg hx
    rwa [eval_add_neg he hf hu hv, Traversal.mapError_eq_ok_iff] at h

/-- Operands of a sum may be exchanged and a difference is the sum with the negative: the one has a
value exactly when the other has, and it is the same one. If both operands have values, an error of
the one becomes that of the other when the operands are exchanged in it, or when the operation that
it names is called a sum. -/
theorem reordered_outcome (he : e.WellFormed) (hf : f.WellFormed) :
    (∀ w, (e + f).eval = .ok w ↔ (f + e).eval = .ok w) ∧
    (∀ w, (e - f).eval = .ok w ↔ (e + -f).eval = .ok w) ∧
    ∀ u v, e.eval = .ok u → f.eval = .ok v →
      (f + e).eval = (e + f).eval.mapError Error.swapOperands ∧
      (e + -f).eval = (e - f).eval.mapError (Error.withOperation .add) :=
  ⟨fun _ => ⟨eval_add_exchange he hf, eval_add_exchange hf he⟩, fun _ => eval_sub_eq_ok_iff he hf,
    fun _ _ hu hv => ⟨eval_add_comm he hf hu hv, eval_add_neg he hf hu hv⟩⟩

/-- A matrix that is square unless it is given one more column. -/
def lowerBeside (ncols : Nat) : Expr Int := .matrix ⟨ncols, [[], [(0, 3), (1, -1)]]⟩

/-- A sum that comes to minus two. -/
def minusTwo : Expr Int := .sum .subtract (.scalar 1) (.scalar 3)

/-- Subtracting minus two from a square matrix fills its diagonal. A matrix that is not square, and
a vector, are refused beside it, whatever the order. -/
theorem reordered_outcome_minusTwo :
    ((lowerBeside 2).WellFormed ∧ minusTwo.WellFormed ∧
      (lowerBeside 2 - minusTwo).eval = .ok (.matrix ⟨2, [[(0, 2)], [(0, 3), (1, 1)]]⟩) ∧
      (lowerBeside 2 + -minusTwo).eval = .ok (.matrix ⟨2, [[(0, 2)], [(0, 3), (1, 1)]]⟩)) ∧
    ((lowerBeside 3).WellFormed ∧
      (lowerBeside 3 + minusTwo).eval = .error (.nonSquareIdentity 2 3) ∧
      (minusTwo + lowerBeside 3).eval = .error (.nonSquareIdentity 2 3)) ∧
    (minusTwo - .vector [5]).eval = .error (.unsupported (.pair .subtract .scalar .vector)) ∧
    (minusTwo + -.vector [5]).eval = .error (.unsupported (.pair .add .scalar .vector)) := by
  have htwo : (lowerBeside 2).WellFormed := .matrix (by decide)
  have hthree : (lowerBeside 3).WellFormed := .matrix (by decide)
  have hminus : minusTwo.WellFormed := .sum .subtract (.scalar 1) (.scalar 3)
  have hrefused := ((reordered_outcome hthree hminus).2.2 _ _ rfl rfl).1
  have hvector := ((reordered_outcome hminus (.vector [5])).2.2 _ _ rfl rfl).2
  exact ⟨⟨htwo, hminus, rfl, ((reordered_outcome htwo hminus).2.1 _).1 rfl⟩,
    ⟨hthree, rfl, hrefused⟩, rfl, hvector⟩

end Reorder

end BlockSparse.Expr
