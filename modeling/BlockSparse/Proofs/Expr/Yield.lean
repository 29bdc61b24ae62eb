import BlockSparse.Proofs.Expr.Outcome
import BlockSparse.Proofs.Expr.WellFormed
import BlockSparse.Proofs.Value.Product

/-! What expressions yield, errors aside. Evaluation succeeds as soon as each step of it does, since
the shapes then fit as well. A product therefore yields the product of what its operands yield, in
the partial monoid of well-formed values, and its shape is the product of their shapes. -/
namespace BlockSparse.Expr
variable {α : Type}

/-- The shape of an expression, if it has one. -/
def shapeYield (e : Expr α) : Partial (Option Shape) := e.shape.toOption

lemma shapeYield_eq_some_iff {e : Expr α} {s : Option Shape} :
    e.shapeYield = .some s ↔ e.shape = .ok s := Traversal.toOption_eq_some_iff

lemma shapeYield_cons_cons (e f : Expr α) (chain : List (Expr α)) :
    shapeYield (.product (e :: f :: chain)) =
      e.shapeYield * shapeYield (.product (f :: chain)) := by
  change (chainShape (e :: f :: chain)).toOption =
    e.shape.toOption.bind fun s => (chainShape (f :: chain)).toOption.bind fun t =>
      (Shape.product s t).toOption
  -- shapes are inferred from the right, and both have to exist
  rw [chainShape]
  cases chainShape (f :: chain) with
  | error err => cases e.shape <;> rfl
  | ok t => cases e.shape <;> rfl

lemma shapeYield_product {chain : List (Expr α)} (hne : chain ≠ []) :
    shapeYield (.product chain) = (chain.map shapeYield).prod :=
  eq_prod_of_cons_cons (g := fun chain => shapeYield (.product chain)) (q := fun _ => True)
    (fun _ => rfl) (fun e f chain _ => shapeYield_cons_cons e f chain) (fun _ _ => trivial) hne

section Eval
variable [Zero α] [One α] [Add α] [Mul α] [Neg α] [BEq α] {e : Expr α} {v : Value α}

lemma chainShape_of_runChain {chain : List (Expr α)}
    (ih : ∀ e ∈ chain, ∀ v, (run e).result = .ok v → e.shape = .ok v.shape?)
    (h : (runChain chain).result = .ok v) : chainShape chain = .ok v.shape? := by
  induction chain generalizing v with
  | nil => cases h
  | cons e chain ihc =>
    have hhead := ih e List.mem_cons_self
    cases chain with
    | nil => exact hhead v h
    | cons f chain =>
      obtain ⟨u, w, hu, hw, h⟩ := exists_of_runChain_cons h
      rw [chainShape, ihc (fun f hf => ih f (List.mem_cons_of_mem e hf)) hw, hhead u hu]
      exact Value.shape_of_mul h

/-- What is evaluated without inferring shapes first has the shape that would be inferred. -/
theorem shape_of_run_eq_ok (h : (run e).result = .ok v) : e.shape = .ok v.shape? := by
  induction e generalizing v with
  | scalar s =>
    cases h
    rfl
  | matrix a =>
    cases h
    rfl
  | vector x =>
    cases h
    rfl
  | product chain ih => exact chainShape_of_runChain (fun e hmem v => ih e hmem) h
  | sum op e f ihe ihf =>
    obtain ⟨u, w, hu, hw, h⟩ := exists_of_run_sum h
    rw [shape, ihe hu, ihf hw]
    exact Value.shape_of_add h
  | transpose e ih =>
    obtain ⟨u, hu, h⟩ := exists_of_run_transpose h
    rw [shape, ih hu]
    exact Value.shape_of_transpose h
  | operator op =>
    obtain ⟨a, ha, rfl⟩ := exists_of_run_operator h
    rw [shape, ha]
    rfl
  | blockMatrix grid => cases h
  | blockVector blocks => cases h

lemma eval_eq_ok_iff : e.eval = .ok v ↔ (run e).result = .ok v := by
  constructor
  · exact run_of_eval
  · intro h
    rw [eval_of_shape (shape_of_run_eq_ok h), h]

/-- The product of two operands is the product of their values. -/
lemma eval_product_pair {f : Expr α} {u w : Value α} (he : e.eval = .ok u) (hf : f.eval = .ok v)
    (h : (Value.mul u v).result = .ok w) : (product [e, f]).eval = .ok w := by
  rw [eval_eq_ok_iff]
  change (runChain [e, f]).result = _
  rw [result_runChain_cons, eval_eq_ok_iff.1 he]
  change ((runChain [f]).result >>= _) = _
  rw [runChain, eval_eq_ok_iff.1 hf]
  exact h

/-- The well-formed value of an expression, if it has one. -/
def yield (e : Expr α) : Partial (Value.Valid α) := Value.valid? (run e).result

lemma yield_eq_some_iff {x : Value.Valid α} : e.yield = .some x ↔ e.eval = .ok x.1 :=
  Value.valid?_eq_some_iff.trans eval_eq_ok_iff.symm

end Eval

variable [CommRing α] [BEq α]

lemma yield_cons_cons {e f : Expr α} {chain : List (Expr α)}
    (h : ∀ x ∈ e :: f :: chain, x.WellFormed) :
    yield (.product (e :: f :: chain)) = e.yield * yield (.product (f :: chain)) := by
  obtain ⟨he, hrest⟩ := List.forall_mem_cons.1 h
  have hu : ∀ u, (run e).result = .ok u → u.WellFormed := fun u => wellFormed_of_run he
  have hv : ∀ v, (runChain (f :: chain)).result = .ok v → v.WellFormed := fun v =>
    wellFormed_of_runChain fun x hx v => wellFormed_of_run (hrest x hx)
  change Value.valid? (runChain (e :: f :: chain)).result = _
  rw [result_runChain_cons, Value.valid?_bind hu]
  simp only [Value.valid?_bind hv]
  rfl

lemma yield_product {chain : List (Expr α)} (h : ∀ x ∈ chain, x.WellFormed) (hne : chain ≠ []) :
    yield (.product chain) = (chain.map yield).prod :=
  eq_prod_of_cons_cons (g := fun chain => yield (.product chain)) (fun _ => rfl)
    (fun _ _ _ => yield_cons_cons) h hne

/-- Expressions that yield the same have the same value or none. -/
lemma eval_iff_of_yield_eq {e f : Expr α} (he : e.WellFormed) (hf : f.WellFormed)
    (h : e.yield = f.yield) (v : Value α) : e.eval = .ok v ↔ f.eval = .ok v := by
  constructor
  · intro hv
    have hsome : e.yield = .some ⟨v, wellFormed_of_eval he hv⟩ := yield_eq_some_iff.2 hv
    exact yield_eq_some_iff.1 (h.symm.trans hsome)
  · intro hv
    have hsome : f.yield = .some ⟨v, wellFormed_of_eval hf hv⟩ := yield_eq_some_iff.2 hv
    exact yield_eq_some_iff.1 (h.trans hsome)

end BlockSparse.Expr
