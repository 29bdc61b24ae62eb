import BlockSparse.Proofs.Expr.WellFormed
import BlockSparse.Proofs.Value.Dense

/-! A reference semantics of expressions in dense arithmetic. Its chains are multiplied from left to
right, while evaluation multiplies them from right to left. -/
namespace BlockSparse.Expr
variable {α : Type} [CommRing α] [DecidableEq α]

mutual

/-- The dense value that an expression denotes, if it denotes one. -/
def denote : Expr α → Option (DenseValue α)
  | .scalar s => some (.scalar s)
  | .matrix a => some (Value.matrix a).dense
  | .vector x => some (Value.vector x).dense
  | .product chain => denoteAll chain >>= DenseValue.leftProduct
  | .sum op e f => do
    let u ← denote e
    let v ← denote f
    u.add op v
  | .transpose e => denote e >>= DenseValue.transpose
  | .operator op => op.matrix?.map fun a => (Value.matrix a).dense
  | .blockMatrix _ => none
  | .blockVector _ => none

/-- The dense values that a chain of operands denotes. -/
def denoteAll : List (Expr α) → Option (List (DenseValue α))
  | [] => some []
  | e :: es => do
    let u ← denote e
    let us ← denoteAll es
    some (u :: us)

end

/-- Read from the right, a chain multiplies its first operand onto the product of the others. -/
lemma denoteAll_cons_cons (e f : Expr α) (chain : List (Expr α)) :
    denoteAll (e :: f :: chain) >>= DenseValue.leftProduct = (do
      let u ← denote e
      let w ← denoteAll (f :: chain) >>= DenseValue.leftProduct
      u.mul w) := by
  rw [denoteAll, denoteAll]
  cases denote e with
  | none => rfl
  | some u =>
    cases denote f with
    | none => rfl
    | some v =>
      cases denoteAll chain with
      | none => rfl
      | some us => exact DenseValue.leftProduct_cons_cons u v us

lemma denoteAll_of_runChain {chain : List (Expr α)} {v : Value α} (hwf : ∀ e ∈ chain, e.WellFormed)
    (ih : ∀ e ∈ chain, ∀ v, (run e).result = .ok v → e.denote = some v.dense)
    (h : (runChain chain).result = .ok v) :
    denoteAll chain >>= DenseValue.leftProduct = some v.dense := by
  induction chain generalizing v with
  | nil => cases h
  | cons e chain ihc =>
    have he := ih e List.mem_cons_self
    cases chain with
    | nil =>
      rw [denoteAll, he v h]
      rfl
    | cons f chain =>
      obtain ⟨u, w, hu, hw, h⟩ := exists_of_runChain_cons h
      -- the product of the other operands is the right factor, as in evaluation
      have hrest := ihc (fun f hf => hwf f (List.mem_cons_of_mem e hf))
        (fun f hf => ih f (List.mem_cons_of_mem e hf)) hw
      rw [denoteAll_cons_cons, he u hu, hrest]
      exact Value.dense_mul (wellFormed_of_run (hwf e List.mem_cons_self) hu) h

/-- What is evaluated is what is denoted, with every entry written out. -/
lemma denote_of_run {e : Expr α} (he : e.WellFormed) {v : Value α} (h : (run e).result = .ok v) :
    e.denote = some v.dense := by
  induction e generalizing v with
  | scalar s =>
    cases h
    rfl
  | matrix a =>
    cases h
    rfl
  | vector x =>
    cases h
    rfl
  | product chain ih =>
    cases he with
    | product hchain =>
      rw [denote]
      exact denoteAll_of_runChain hchain (fun e hmem v hv => ih e hmem (hchain e hmem) hv) h
  | sum op e f ihe ihf =>
    cases he with
    | sum _ hwe hwf =>
      obtain ⟨u, w, hu, hw, h⟩ := exists_of_run_sum h
      rw [denote, ihe hwe hu, ihf hwf hw]
      exact Value.dense_add h
  | transpose e ih =>
    cases he with
    | transpose hwe =>
      obtain ⟨u, hu, h⟩ := exists_of_run_transpose h
      rw [denote, ih hwe hu]
      exact Value.dense_transpose h
  | operator op =>
    obtain ⟨a, ha, rfl⟩ := exists_of_run_operator h
    rw [denote, ha]
    rfl
  | blockMatrix grid => cases h
  | blockVector blocks => cases h

/-- A value that an expression evaluates to has the kind, the shape and the entries of the dense
value that the expression denotes. -/
theorem denote_of_eval {e : Expr α} (he : e.WellFormed) {v : Value α} (h : e.eval = .ok v) :
    ∃ d, e.denote = some d ∧ d.kind = v.kind ∧ d.shape? = v.shape? ∧ d = v.dense := by
  have hd := denote_of_run he (run_of_eval h)
  exact ⟨v.dense, hd, v.kind_dense, v.shape?_dense, rfl⟩

/-- The chain `(2 + A) * Aᵀ * x`. -/
def shiftedGram (a : SparseMatrix Int) (x : DenseVector Int) : Expr Int :=
  .product [.sum .add (.scalar 2) (.matrix a), .transpose (.matrix a), .vector x]

lemma wellFormed_shiftedGram {a : SparseMatrix Int} (ha : a.WellFormed) (x : DenseVector Int) :
    (shiftedGram a x).WellFormed := by
  refine .product fun e he => ?_
  simp only [List.mem_cons, List.not_mem_nil, or_false] at he
  rcases he with rfl | rfl | rfl
  · exact .sum .add (.scalar 2) (.matrix ha)
  · exact .transpose (.matrix ha)
  · exact .vector x

theorem denote_of_eval_shiftedGram :
    (shiftedGram ⟨2, [[(0, 1)], [(0, 3), (1, -1)]]⟩ [1, -1]).WellFormed ∧
      (shiftedGram ⟨2, [[(0, 1)], [(0, 3), (1, -1)]]⟩ [1, -1]).eval = .ok (.vector [-6, -5]) ∧
      ∃ d, (shiftedGram ⟨2, [[(0, 1)], [(0, 3), (1, -1)]]⟩ [1, -1]).denote = some d ∧
        d.kind = .vector ∧ d.shape? = some (.vector 2) ∧ d = (Value.vector [-6, -5]).dense :=
  have h := wellFormed_shiftedGram (a := ⟨2, [[(0, 1)], [(0, 3), (1, -1)]]⟩) (by decide) [1, -1]
  ⟨h, rfl, denote_of_eval h rfl⟩

end BlockSparse.Expr
