import BlockSparse.Expr.Eval
import BlockSparse.Proofs.Expr.Structure
import BlockSparse.Proofs.Traversal
import BlockSparse.Proofs.Value.Outcome

/-! When evaluation succeeds and how it fails. An expression that has a shape is evaluated to a
value of that shape, unless one of the sums inside it has a nonzero scalar beside a vector or beside
a matrix that is not square. The first such sum in evaluation order is then the one reported. -/
namespace BlockSparse.Expr
variable {α : Type}

mutual

/-- The sums inside an expression with their operands, in the order in which evaluation reaches
them: those inside the operands of a sum come before the sum itself. -/
def sums : Expr α → List (SumOp × Expr α × Expr α)
  | .product chain => chainSums chain
  | .sum op e f => sums e ++ (sums f ++ [(op, e, f)])
  | .transpose e => sums e
  | _ => []

/-- The sums inside the operands of a chain. -/
def chainSums : List (Expr α) → List (SumOp × Expr α × Expr α)
  | [] => []
  | e :: chain => sums e ++ chainSums chain

end

variable [Zero α] [One α] [Add α] [Mul α] [Neg α] [BEq α]

/-- A sum in which one operand comes out as a nonzero scalar and the other one is a vector or a
matrix that is not square, with the error that it causes. -/
inductive BadSum : SumOp × Expr α × Expr α → Error → Prop
  | scalarLeft {op : SumOp} {e f : Expr α} {s : α} {t : Shape} {err : Error}
    (he : e.eval = .ok (.scalar s)) (hs : (s == 0) = false) (hf : f.shape = .ok (some t))
    (h : Value.Misfit (.pair op.operation .scalar .vector) t err) : BadSum (op, e, f) err
  | scalarRight {op : SumOp} {e f : Expr α} {s : α} {t : Shape} {err : Error}
    (he : e.shape = .ok (some t)) (hf : f.eval = .ok (.scalar s)) (hs : (s == 0) = false)
    (h : Value.Misfit (.pair op.operation .vector .scalar) t err) : BadSum (op, e, f) err

lemma eval_of_shape {e : Expr α} {s : Option Shape} (h : e.shape = .ok s) :
    e.eval = (run e).result := by
  rw [eval_eq, h]
  rfl

lemma eval_of_shape_error {e : Expr α} {err : Error} (h : e.shape = .error err) :
    e.eval = .error err := by
  rw [eval_eq, h]
  rfl

/-- Once the operands are evaluated, whether a sum is bad can be seen from their values. -/
lemma badSum_iff {op : SumOp} {e f : Expr α} {u v : Value α} {err : Error}
    (hse : e.shape = .ok u.shape?) (hsf : f.shape = .ok v.shape?) (he : e.eval = .ok u)
    (hf : f.eval = .ok v) :
    BadSum (op, e, f) err ↔
      (∃ s t, u = .scalar s ∧ (s == 0) = false ∧ v.shape? = some t ∧
        Value.Misfit (.pair op.operation .scalar .vector) t err) ∨
      ∃ s t, u.shape? = some t ∧ v = .scalar s ∧ (s == 0) = false ∧
        Value.Misfit (.pair op.operation .vector .scalar) t err := by
  constructor
  · intro h
    cases h with
    | scalarLeft he' hs hf' h =>
      rw [he] at he'
      rw [hsf] at hf'
      exact .inl ⟨_, _, Except.ok.inj he', hs, Except.ok.inj hf', h⟩
    | scalarRight he' hf' hs h =>
      rw [hse] at he'
      rw [hf] at hf'
      exact .inr ⟨_, _, Except.ok.inj he', Except.ok.inj hf', hs, h⟩
  · rintro (⟨s, t, rfl, hs, ht, h⟩ | ⟨s, t, ht, rfl, hs, h⟩)
    · exact .scalarLeft he hs (ht ▸ hsf) h
    · exact .scalarRight (ht ▸ hse) hf hs h

/-- A computation gives a value of a known shape if no sum of a list is bad, and otherwise the error
of the first bad one. -/
def Decided (l : List (SumOp × Expr α × Expr α)) (r : Except Error (Value α))
    (s : Option Shape) : Prop :=
  (∃ v, r = .ok v ∧ v.shape? = s ∧ ∀ p ∈ l, ∀ err, ¬ BadSum p err) ∨
    ∃ err, r = .error err ∧ First BadSum l err

lemma Decided.ok {v : Value α} {s : Option Shape} (h : v.shape? = s) : Decided [] (.ok v) s :=
  .inl ⟨v, rfl, h, fun _ hp => absurd hp List.not_mem_nil⟩

/-- The sums of a computation that goes on with a value come after those that led to it. -/
lemma Decided.bind {l l' : List (SumOp × Expr α × Expr α)} {r : Except Error (Value α)}
    {f : Value α → Except Error (Value α)} {s t : Option Shape} (h : Decided l r s)
    (hf : ∀ v, r = .ok v → v.shape? = s → Decided l' (f v) t) :
    Decided (l ++ l') (r >>= f) t := by
  obtain ⟨v, rfl, hv, hl⟩ | ⟨err, rfl, hl⟩ := h
  · obtain ⟨w, hw, ht, hl'⟩ | ⟨err, hw, hl'⟩ := hf v rfl hv
    · refine .inl ⟨w, hw, ht, fun p hp => ?_⟩
      obtain hp | hp := List.mem_append.1 hp
      · exact hl p hp
      · exact hl' p hp
    · exact .inr ⟨err, hw, First.append_right hl hl'⟩
  · exact .inr ⟨err, rfl, hl.append_left l'⟩

section Sums
variable {op : SumOp} {e f : Expr α} {u v : Value α}

lemma not_badSum_of_values (hse : e.shape = .ok u.shape?) (hsf : f.shape = .ok v.shape?)
    (he : e.eval = .ok u) (hf : f.eval = .ok v)
    (hleft : ∀ s t, u = .scalar s → (s == 0) = false → v.shape? = some t → ∀ err,
      ¬ Value.Misfit (.pair op.operation .scalar .vector) t err)
    (hright : ∀ s t, u.shape? = some t → v = .scalar s → (s == 0) = false → ∀ err,
      ¬ Value.Misfit (.pair op.operation .vector .scalar) t err) :
    ∀ p ∈ [(op, e, f)], ∀ err, ¬ BadSum p err := by
  rw [List.forall_mem_singleton]
  intro err hbad
  obtain ⟨s, t, hu, hs, hv, h⟩ | ⟨s, t, hu, hv, hs, h⟩ := (badSum_iff hse hsf he hf).1 hbad
  · exact hleft s t hu hs hv err h
  · exact hright s t hu hv hs err h

lemma decided_add_scalar_left {s : α} {t : Shape} (hse : e.shape = .ok (Value.scalar s).shape?)
    (hsf : f.shape = .ok v.shape?) (he : e.eval = .ok (.scalar s)) (hf : f.eval = .ok v)
    (hv : v.shape? = some t) :
    Decided [(op, e, f)] (Value.add op (.scalar s) v).result (some t) := by
  rw [Value.add_scalar_left op s hv]
  by_cases hs : (s == 0) = true
  · rw [if_pos hs]
    obtain ⟨w, hw, hshape⟩ := Value.addToZero_outcome op v
    refine .inl ⟨w, hw, hshape.trans hv, not_badSum_of_values hse hsf he hf ?_ ?_⟩
    · rintro s' t' hs' hne
      cases hs'
      simp [hs] at hne
    · intro s' t' h
      cases h
  · rw [if_neg hs]
    obtain ⟨w, hw, hshape, hfit⟩ | ⟨err, herr, hmisfit⟩ :=
      Value.addNonzero_left_outcome op s hv
    · refine .inl ⟨w, hw, hshape, not_badSum_of_values hse hsf he hf ?_ ?_⟩
      · intro s' t' _ _ ht'
        rw [hv] at ht'
        cases ht'
        exact hfit
      · intro s' t' h
        cases h
    · refine .inr ⟨err, herr, .here ?_⟩
      exact .scalarLeft he (Bool.eq_false_iff.2 hs) (hsf.trans (congrArg _ hv)) hmisfit

lemma decided_add_scalar_right {s : α} {t : Shape} (hse : e.shape = .ok u.shape?)
    (hsf : f.shape = .ok (Value.scalar s).shape?) (he : e.eval = .ok u)
    (hf : f.eval = .ok (.scalar s))
    (hu : u.shape? = some t) :
    Decided [(op, e, f)] (Value.add op u (.scalar s)).result (some t) := by
  rw [Value.add_scalar_right op s hu]
  by_cases hs : (s == 0) = true
  · rw [if_pos hs]
    refine .inl ⟨u, rfl, hu, not_badSum_of_values hse hsf he hf ?_ ?_⟩
    · intro s' t' _ _ h
      cases h
    · rintro s' t' _ hs' hne
      cases hs'
      simp [hs] at hne
  · rw [if_neg hs]
    obtain ⟨w, hw, hshape, hfit⟩ | ⟨err, herr, hmisfit⟩ :=
      Value.addNonzero_right_outcome op s hu
    · refine .inl ⟨w, hw, hshape, not_badSum_of_values hse hsf he hf ?_ ?_⟩
      · intro s' t' _ _ h
        cases h
      · intro s' t' ht'
        rw [hu] at ht'
        cases ht'
        intro _ _
        exact hfit
    · refine .inr ⟨err, herr, .here ?_⟩
      exact .scalarRight (hse.trans (congrArg _ hu)) hf (Bool.eq_false_iff.2 hs) hmisfit

/-- A sum of values whose shapes fit together is decided by whether it is bad. -/
lemma decided_add {t : Option Shape} (hse : e.shape = .ok u.shape?)
    (hsf : f.shape = .ok v.shape?) (he : e.eval = .ok u) (hf : f.eval = .ok v)
    (ht : Shape.sum op.operation u.shape? v.shape? = .ok t) :
    Decided [(op, e, f)] (Value.add op u v).result t := by
  cases hu : u.shape? with
  | none =>
    obtain ⟨s, rfl⟩ := Value.shape?_eq_none_iff.1 hu
    rw [hu, Shape.sum_none_left] at ht
    cases ht
    cases hv : v.shape? with
    | none =>
      obtain ⟨s', rfl⟩ := Value.shape?_eq_none_iff.1 hv
      refine .inl ⟨_, rfl, rfl, not_badSum_of_values hse hsf he hf ?_ ?_⟩
      · intro _ _ _ _ h
        cases h
      · intro _ _ h
        cases h
    | some t' => exact decided_add_scalar_left hse hsf he hf hv
  | some s =>
    cases hv : v.shape? with
    | none =>
      obtain ⟨s', rfl⟩ := Value.shape?_eq_none_iff.1 hv
      rw [hu, hv, Shape.sum_none_right] at ht
      cases ht
      exact decided_add_scalar_right hse hsf he hf hu
    | some t' =>
      rw [hu, hv, Shape.sum] at ht
      split at ht
      · rename_i hst
        cases ht
        subst hst
        obtain ⟨w, hw, hshape⟩ := Value.add_shaped_outcome op hu hv
        refine .inl ⟨w, hw, hshape, not_badSum_of_values hse hsf he hf ?_ ?_⟩
        · rintro s' _ rfl
          cases hu
        · rintro s' _ _ rfl
          cases hv
      · cases ht

end Sums

lemma decided_runChain {chain : List (Expr α)} {s : Option Shape}
    (ih : ∀ e ∈ chain, ∀ s, e.shape = .ok s → Decided e.sums (run e).result s)
    (h : chainShape chain = .ok s) : Decided (chainSums chain) (runChain chain).result s := by
  induction chain generalizing s with
  | nil => cases h
  | cons e chain ihc =>
    cases chain with
    | nil =>
      rw [chainSums, chainSums, List.append_nil]
      exact ih e (List.mem_cons_self ..) s h
    | cons f chain =>
      rw [chainShape, Traversal.bind_eq_ok_iff] at h
      obtain ⟨t, ht, h⟩ := h
      obtain ⟨u, hu, hprod⟩ := Traversal.bind_eq_ok_iff.1 h
      have he := ih e (List.mem_cons_self ..) u hu
      have hrest := ihc (fun x hx => ih x (List.mem_cons_of_mem _ hx)) ht
      rw [result_runChain_cons, chainSums]
      refine he.bind fun v _ hv => ?_
      rw [← List.append_nil (chainSums (f :: chain))]
      refine hrest.bind fun w _ hw => ?_
      rw [← hv, ← hw] at hprod
      obtain ⟨z, hz, hshape⟩ := Value.mul_outcome hprod
      rw [hz]
      exact Decided.ok hshape

/-- Evaluation of an expression that has a shape is decided by the sums inside it. -/
theorem decided_run {e : Expr α} {s : Option Shape} (h : e.shape = .ok s) :
    Decided e.sums (run e).result s := by
  induction e generalizing s with
  | scalar s' =>
    cases h
    exact Decided.ok rfl
  | matrix a =>
    cases h
    exact Decided.ok rfl
  | vector x =>
    cases h
    exact Decided.ok rfl
  | product chain ih => exact decided_runChain (fun e he s => ih e he) h
  | sum op e f ihe ihf =>
    rw [shape, Traversal.bind_eq_ok_iff] at h
    obtain ⟨t, ht, h⟩ := h
    obtain ⟨u, hu, hsum⟩ := Traversal.bind_eq_ok_iff.1 h
    rw [result_run_sum, sums]
    refine (ihe ht).bind fun v hv hvs => (ihf hu).bind fun w hw hws => ?_
    rw [← eval_of_shape ht] at hv
    rw [← eval_of_shape hu] at hw
    subst hvs hws
    exact decided_add ht hu hv hw hsum
  | transpose e ih =>
    rw [shape, Traversal.bind_eq_ok_iff] at h
    obtain ⟨t, ht, h⟩ := h
    rw [result_run_transpose, sums, ← List.append_nil (sums e)]
    refine (ih ht).bind fun v _ hv => ?_
    rw [← hv] at h
    obtain ⟨w, hw, hshape⟩ := Value.transpose_outcome h
    rw [hw]
    exact Decided.ok hshape
  | operator op =>
    rw [shape] at h
    rw [run]
    cases ha : op.matrix? with
    | none =>
      rw [ha] at h
      cases h
    | some a =>
      rw [ha] at h
      cases h
      exact Decided.ok rfl
  | blockMatrix grid => cases h
  | blockVector blocks => cases h

/-- A value has the shape that was inferred for its expression. -/
theorem shape_of_run {e : Expr α} {s : Option Shape} {v : Value α} (h : e.shape = .ok s)
    (hv : (run e).result = .ok v) : v.shape? = s := by
  obtain ⟨w, hw, hs, _⟩ | ⟨err, herr, _⟩ := decided_run h
  · rw [hv] at hw
    cases hw
    exact hs
  · rw [hv] at herr
    cases herr

/-- What evaluates has the shape of its value. -/
theorem shape_of_eval {e : Expr α} {v : Value α} (h : e.eval = .ok v) :
    e.shape = .ok v.shape? := by
  cases hs : e.shape with
  | error err =>
    rw [eval_of_shape_error hs] at h
    cases h
  | ok s =>
    rw [eval_of_shape hs] at h
    rw [shape_of_run hs h]

/-- A bad sum causes one error. -/
lemma BadSum.unique {p : SumOp × Expr α × Expr α} {err err' : Error} (h : BadSum p err)
    (h' : BadSum p err') : err = err' := by
  cases h with
  | scalarLeft he hs hf h =>
    cases h' with
    | scalarLeft _ _ hf' h' =>
      rw [hf] at hf'
      cases hf'
      exact h.unique h'
    | scalarRight he' _ _ _ =>
      rw [shape_of_eval he] at he'
      cases he'
  | scalarRight he hf hs h =>
    cases h' with
    | scalarLeft he' _ _ _ =>
      rw [shape_of_eval he'] at he
      cases he
    | scalarRight he' _ _ h' =>
      rw [he] at he'
      cases he'
      exact h.unique h'

lemma BadSum.cases_error {p : SumOp × Expr α × Expr α} {err : Error} (h : BadSum p err) :
    (∃ rows cols, rows ≠ cols ∧ err = .nonSquareIdentity rows cols) ∨
      err = .unsupported (.pair p.1.operation .scalar .vector) ∨
      err = .unsupported (.pair p.1.operation .vector .scalar) := by
  cases h with
  | scalarLeft _ _ _ h =>
    cases h with
    | vector n => exact .inr (.inl rfl)
    | matrix h => exact .inl ⟨_, _, h, rfl⟩
  | scalarRight _ _ _ h =>
    cases h with
    | vector n => exact .inr (.inr rfl)
    | matrix h => exact .inl ⟨_, _, h, rfl⟩

/-- Evaluation fails with the error of shape inference if there is one. Otherwise it succeeds
exactly when no sum inside the expression is bad, and fails with the error of the first bad sum;
this is never an error about incompatible shapes or about malformed matrices. -/
theorem eval_outcome (e : Expr α) :
    (∀ err, e.shape = .error err → e.eval = .error err) ∧
    ∀ s, e.shape = .ok s →
      ((∃ v, e.eval = .ok v) ↔ ∀ p ∈ e.sums, ∀ err, ¬ BadSum p err) ∧
      (∀ err, e.eval = .error err ↔ First BadSum e.sums err) ∧
      ∀ err, e.eval = .error err →
        (∀ op t u, err ≠ .incompatibleShapes op t u) ∧ ∀ fault, err ≠ .malformed fault := by
  refine ⟨fun err => eval_of_shape_error, fun s hs => ?_⟩
  rw [eval_of_shape hs]
  obtain ⟨v, hv, _, hgood⟩ | ⟨err, herr, hfirst⟩ := decided_run hs
  · rw [hv]
    have hnot : ∀ err, ¬ First BadSum e.sums err := by
      intro err h
      obtain ⟨p, hp, hbad⟩ := h.mem
      exact hgood p hp err hbad
    refine ⟨⟨fun _ => hgood, fun _ => ⟨v, rfl⟩⟩, fun err => ⟨?_, fun h => absurd h (hnot err)⟩, ?_⟩
    · intro h
      cases h
    · intro err h
      cases h
  · rw [herr]
    obtain ⟨p, hp, hbad⟩ := hfirst.mem
    refine ⟨⟨?_, fun h => absurd hbad (h p hp err)⟩, fun err' => ⟨?_, fun h => ?_⟩, ?_⟩
    · rintro ⟨v, h⟩
      cases h
    · intro h
      cases h
      exact hfirst
    · have hone := First.unique (R := BadSum) (fun _ _ _ => BadSum.unique) hfirst h
      rw [hone]
    · intro err' h
      cases h
      obtain ⟨rows, cols, _, rfl⟩ | rfl | rfl := hbad.cases_error
      all_goals
        constructor
        · intro op t u h
          cases h
        · intro fault h
          cases h

example : eval (.sum .subtract (.vector [1, 2]) (.scalar (3 : Int))) =
    .error (.unsupported (.pair .subtract .vector .scalar)) := rfl

end BlockSparse.Expr
