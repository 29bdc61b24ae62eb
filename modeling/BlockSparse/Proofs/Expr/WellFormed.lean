import BlockSparse.Proofs.Expr.Structure
import BlockSparse.Proofs.Value.Cases

/-! Expressions whose matrices are well formed. Whatever is evaluated from them is well formed. -/
namespace BlockSparse.Expr
variable {α : Type}

/-- Every matrix in an expression is well formed, those that represent operators included. -/
inductive WellFormed : Expr α → Prop
  | scalar (s : α) : WellFormed (.scalar s)
  | matrix {a : SparseMatrix α} (ha : a.WellFormed) : WellFormed (.matrix a)
  | vector (x : DenseVector α) : WellFormed (.vector x)
  | product {chain : List (Expr α)} (h : ∀ e ∈ chain, WellFormed e) : WellFormed (.product chain)
  | sum (op : SumOp) {e f : Expr α} (he : WellFormed e) (hf : WellFormed f) :
    WellFormed (.sum op e f)
  | transpose {e : Expr α} (he : WellFormed e) : WellFormed (.transpose e)
  | operator {op : LinearOperator α} (h : ∀ a, op.matrix? = some a → a.WellFormed) :
    WellFormed (.operator op)
  | blockMatrix {grid : Grid (Expr α)} (hg : grid.WellFormed)
    (h : ∀ e ∈ grid.cells, WellFormed e) : WellFormed (.blockMatrix grid)
  | blockVector {blocks : List (Expr α)} (h : ∀ e ∈ blocks, WellFormed e) :
    WellFormed (.blockVector blocks)

section Parts
variable {e f : Expr α}

@[simp] lemma wellFormed_product_iff {chain : List (Expr α)} :
    (Expr.product chain).WellFormed ↔ ∀ e ∈ chain, e.WellFormed := by
  refine ⟨fun h => ?_, .product⟩
  cases h with
  | product h => exact h

@[simp] lemma wellFormed_sum_iff {op : SumOp} :
    (Expr.sum op e f).WellFormed ↔ e.WellFormed ∧ f.WellFormed := by
  refine ⟨fun h => ?_, fun h => .sum op h.1 h.2⟩
  cases h with
  | sum _ he hf => exact ⟨he, hf⟩

@[simp] lemma wellFormed_transpose_iff : (Expr.transpose e).WellFormed ↔ e.WellFormed := by
  refine ⟨fun h => ?_, .transpose⟩
  cases h with
  | transpose he => exact he

@[simp] lemma wellFormed_blockMatrix_iff {grid : Grid (Expr α)} :
    (Expr.blockMatrix grid).WellFormed ↔ grid.WellFormed ∧ ∀ e ∈ grid.cells, e.WellFormed := by
  refine ⟨fun h => ?_, fun h => .blockMatrix h.1 h.2⟩
  cases h with
  | blockMatrix hg h => exact ⟨hg, h⟩

@[simp] lemma wellFormed_blockVector_iff {blocks : List (Expr α)} :
    (Expr.blockVector blocks).WellFormed ↔ ∀ e ∈ blocks, e.WellFormed := by
  refine ⟨fun h => ?_, .blockVector⟩
  cases h with
  | blockVector h => exact h

end Parts

variable [Zero α] [One α] [Add α] [Mul α] [Neg α] [BEq α]

lemma wellFormed_of_runChain {chain : List (Expr α)} {v : Value α}
    (ih : ∀ e ∈ chain, ∀ v, (run e).result = .ok v → v.WellFormed)
    (h : (runChain chain).result = .ok v) : v.WellFormed := by
  induction chain generalizing v with
  | nil => cases h
  | cons e chain ihc =>
    cases chain with
    | nil => exact ih e List.mem_cons_self v h
    | cons f chain =>
      obtain ⟨u, w, hu, hw, h⟩ := exists_of_runChain_cons h
      exact Value.wellFormed_mul (ih e List.mem_cons_self u hu)
        (ihc (fun f hf => ih f (List.mem_cons_of_mem e hf)) hw) h

theorem wellFormed_of_run {e : Expr α} (he : e.WellFormed) {v : Value α}
    (h : (run e).result = .ok v) : v.WellFormed := by
  induction e generalizing v with
  | scalar s =>
    cases h
    trivial
  | matrix a =>
    cases h
    cases he with
    | matrix ha => exact ha
  | vector x =>
    cases h
    trivial
  | product chain ih =>
    cases he with
    | product hchain =>
      exact wellFormed_of_runChain (fun e hmem v hv => ih e hmem (hchain e hmem) hv) h
  | sum op e f ihe ihf =>
    cases he with
    | sum _ hwe hwf =>
      obtain ⟨u, w, hu, hw, h⟩ := exists_of_run_sum h
      exact Value.wellFormed_add (ihe hwe hu) (ihf hwf hw) h
  | transpose e ih =>
    obtain ⟨u, hu, h⟩ := exists_of_run_transpose h
    exact Value.wellFormed_transpose h
  | operator op =>
    cases he with
    | operator hop =>
      obtain ⟨a, ha, rfl⟩ := exists_of_run_operator h
      exact hop a ha
  | blockMatrix grid => cases h
  | blockVector blocks => cases h

/-- The value of an expression is well formed if the matrices in the expression are. -/
theorem wellFormed_of_eval {e : Expr α} (he : e.WellFormed) {v : Value α} (h : e.eval = .ok v) :
    v.WellFormed := wellFormed_of_run he (run_of_eval h)

end BlockSparse.Expr
