import BlockSparse.Proofs.Expr.Outcome
import BlockSparse.Proofs.Expr.WellFormed
import BlockSparse.Proofs.Value.Pattern

/-! The stored positions of what expressions evaluate to. They can be told from the stored positions
of the matrices in the expression and from the scalars beside the operands of its sums: nothing is
dropped where numbers cancel, and nothing is added. So expressions that differ in nothing but the
numbers of their matrices and vectors evaluate to the same pattern, or fail with the same error. -/
namespace BlockSparse
open scoped SetRel

/-- Operators that differ in nothing but the numbers of the values that represent them. -/
inductive LinearOperator.Alike {α : Type} : LinearOperator α → LinearOperator α → Prop
  | unrepresented (name : String) : Alike ⟨name, none⟩ ⟨name, none⟩
  | represented (name : String) {u v : Value α} (h : u.Alike v) :
    Alike ⟨name, some u⟩ ⟨name, some v⟩

namespace Expr
variable {α : Type}

/-- Expressions that differ in nothing but the numbers of their matrices and vectors. -/
inductive Alike : Expr α → Expr α → Prop
  | scalar (s : α) : Alike (.scalar s) (.scalar s)
  | matrix {a b : SparseMatrix α} (h : a.SamePattern b) : Alike (.matrix a) (.matrix b)
  | vector {x y : DenseVector α} (h : x.length = y.length) : Alike (.vector x) (.vector y)
  | product {chain chain' : List (Expr α)} (h : List.Forall₂ Alike chain chain') :
    Alike (.product chain) (.product chain')
  | sum (op : SumOp) {e e' f f' : Expr α} (he : Alike e e') (hf : Alike f f') :
    Alike (.sum op e f) (.sum op e' f')
  | transpose {e e' : Expr α} (he : Alike e e') : Alike (.transpose e) (.transpose e')
  | operator {op op' : LinearOperator α} (h : op.Alike op') : Alike (.operator op) (.operator op')
  | blockMatrix {grid grid' : Grid (Expr α)} (hrows : grid.numRows = grid'.numRows)
    (hcols : grid.numCols = grid'.numCols) (h : List.Forall₂ Alike grid.cells grid'.cells) :
    Alike (.blockMatrix grid) (.blockMatrix grid')
  | blockVector {blocks blocks' : List (Expr α)} (h : List.Forall₂ Alike blocks blocks') :
    Alike (.blockVector blocks) (.blockVector blocks')

lemma chainShape_of_alike {chain chain' : List (Expr α)}
    (ih : ∀ e ∈ chain, ∀ e', e.Alike e' → e.shape = e'.shape)
    (h : List.Forall₂ Alike chain chain') : chainShape chain = chainShape chain' := by
  induction h with
  | nil => rfl
  | @cons e e' chain chain' he hrest ihc =>
    have hhead := ih e List.mem_cons_self e' he
    cases hrest with
    | nil => exact hhead
    | cons hf hrest =>
      rw [chainShape, chainShape, hhead, ihc fun f hmem => ih f (List.mem_cons_of_mem e hmem)]

lemma shape_of_alike {e e' : Expr α} (h : e.Alike e') : e.shape = e'.shape := by
  induction e generalizing e' with
  | scalar s =>
    cases h
    rfl
  | matrix a =>
    cases h with
    | matrix h => rw [shape, shape, h.shape]
  | vector x =>
    cases h with
    | vector h => rw [shape, shape, h]
  | product chain ih =>
    cases h with
    | product h => exact chainShape_of_alike (fun e hmem e' => ih e hmem) h
  | sum op e f ihe ihf =>
    cases h with
    | sum _ he hf => rw [shape, shape, ihe he, ihf hf]
  | transpose e ih =>
    cases h with
    | transpose he => rw [shape, shape, ih he]
  | operator op =>
    cases h with
    | operator h =>
      cases h with
      | unrepresented name => rfl
      | represented name h =>
        cases h with
        | scalar s => rfl
        | @matrix a b h =>
          change Except.ok (some a.shape) = Except.ok (some b.shape)
          rw [h.shape]
        | vector h => rfl
  | blockMatrix grid =>
    cases h
    rfl
  | blockVector blocks =>
    cases h
    rfl

variable [Zero α] [One α] [Add α] [Mul α] [Neg α] [BEq α]

lemma alike_runChain {chain chain' : List (Expr α)}
    (ih : ∀ e ∈ chain, ∀ e', e.Alike e' → Agree Value.Alike (run e).result (run e').result)
    (h : List.Forall₂ Alike chain chain') :
    Agree Value.Alike (runChain chain).result (runChain chain').result := by
  induction h with
  | nil => exact .error _
  | @cons e e' chain chain' he hrest ihc =>
    have hhead := ih e List.mem_cons_self e' he
    cases hrest with
    | nil => exact hhead
    | cons hf hrest =>
      rw [result_runChain_cons, result_runChain_cons]
      refine hhead.bind fun u u' hu => ?_
      refine (ihc fun f hmem => ih f (List.mem_cons_of_mem e hmem)).bind fun v v' hv => ?_
      exact hu.mul hv

theorem alike_run {e e' : Expr α} (h : e.Alike e') :
    Agree Value.Alike (run e).result (run e').result := by
  induction e generalizing e' with
  | scalar s =>
    cases h
    exact .ok (.scalar s)
  | matrix a =>
    cases h with
    | matrix h => exact .ok (.matrix h)
  | vector x =>
    cases h with
    | vector h => exact .ok (.vector h)
  | product chain ih =>
    cases h with
    | product h => exact alike_runChain (fun e hmem e' => ih e hmem) h
  | sum op e f ihe ihf =>
    cases h with
    | sum _ he hf =>
      rw [result_run_sum, result_run_sum]
      exact (ihe he).bind fun u u' hu => (ihf hf).bind fun v v' hv => hu.add op hv
  | transpose e ih =>
    cases h with
    | transpose he =>
      rw [result_run_transpose, result_run_transpose]
      exact (ih he).bind fun u u' hu => hu.transpose
  | operator op =>
    cases h with
    | operator h =>
      cases h with
      | unrepresented name => exact .error _
      | represented name h =>
        cases h with
        | scalar s => exact .error _
        | matrix h => exact .ok (.matrix h)
        | vector h => exact .error _
  | blockMatrix grid =>
    cases h
    exact .error _
  | blockVector blocks =>
    cases h
    exact .error _

/-- Expressions that are alike evaluate alike, or fail with the same error. -/
theorem alike_eval {e e' : Expr α} (h : e.Alike e') : Agree Value.Alike e.eval e'.eval := by
  rw [eval_eq, eval_eq, shape_of_alike h]
  cases e'.shape with
  | error err => exact .error err
  | ok s => exact alike_run h

/-- The scalar to which an expression evaluates, if it does. -/
def scalar? (e : Expr α) : Option α := e.eval.toOption.bind Value.scalar?

/-- The number of rows of what an expression evaluates to. -/
def rows (e : Expr α) : Nat :=
  match e.shape with
  | .ok (some t) => t.rows
  | _ => 0

mutual

/-- The positions at which an expression stores entries. -/
def pattern : Expr α → SetRel Nat Nat
  | .matrix a => a.positions
  | .product chain => Value.compose (factors chain)
  | .sum _ e f =>
    match scalar? e, scalar? f with
    | some s, none => Value.shifted s (rows f) (pattern f)
    | none, some s => Value.shifted s (rows e) (pattern e)
    | _, _ => pattern e ∪ pattern f
  | .transpose e => (pattern e).inv
  | .operator op =>
    match op.matrix? with
    | some a => a.positions
    | none => ∅
  | _ => ∅

/-- The patterns of the operands of a chain that are not scalars. -/
def factors : List (Expr α) → List (SetRel Nat Nat)
  | [] => []
  | e :: chain => if (scalar? e).isSome then factors chain else pattern e :: factors chain

end

lemma scalar?_of_eval {e : Expr α} {v : Value α} (h : e.eval = .ok v) :
    e.scalar? = v.scalar? := by
  rw [scalar?, h]
  rfl

lemma rows_of_eval {e : Expr α} {v : Value α} (h : e.eval = .ok v) : e.rows = v.rows := by
  rw [rows, shape_of_eval h]
  cases v <;> rfl

/-- What is known of an operand once it has been evaluated. -/
lemma factors_cons {e : Expr α} {u : Value α} (hu : e.eval = .ok u)
    (hpattern : u.positions = e.pattern) (chain : List (Expr α)) :
    factors (e :: chain) = u.withFactor (factors chain) := by
  rw [factors, Value.withFactor, scalar?_of_eval hu, hpattern]

lemma productOf_runChain {chain : List (Expr α)} {s : Option Shape} {v : Value α}
    (ih : ∀ e ∈ chain, ∀ s v, e.shape = .ok s → (run e).result = .ok v → v.positions = e.pattern)
    (hs : chainShape chain = .ok s) (h : (runChain chain).result = .ok v) :
    v.ProductOf (factors chain) := by
  -- by induction on the chain, as what follows its first operand is evaluated as a chain
  induction chain generalizing s v with
  | nil => cases h
  | cons e chain ihc =>
    have hhead := ih e List.mem_cons_self
    cases chain with
    | nil =>
      rw [factors_cons ((eval_of_shape hs).trans h) (hhead s v hs h)]
      exact v.productOf_withFactor_nil
    | cons f chain =>
      obtain ⟨t, t', ht, ht', _⟩ := exists_of_chainShape_cons hs
      obtain ⟨u, w, hu, hw, hmul⟩ := exists_of_runChain_cons h
      have hrest := ihc (fun f hmem => ih f (List.mem_cons_of_mem e hmem)) ht' hw
      rw [factors_cons ((eval_of_shape ht).trans hu) (hhead t u ht hu)]
      exact hrest.mul hmul

theorem positions_of_run {e : Expr α} (he : e.WellFormed) {s : Option Shape} {v : Value α}
    (hs : e.shape = .ok s) (hv : (run e).result = .ok v) : v.positions = e.pattern := by
  induction e generalizing s v with
  | scalar s' =>
    cases hv
    rfl
  | matrix a =>
    cases hv
    rfl
  | vector x =>
    cases hv
    rfl
  | product chain ih =>
    cases he with
    | product hchain =>
      have hmem : ∀ e ∈ chain, ∀ s v, e.shape = .ok s → (run e).result = .ok v →
          v.positions = e.pattern := fun e hmem s v => ih e hmem (hchain e hmem)
      rw [pattern]
      exact (productOf_runChain hmem hs hv).positions
  | sum op e f ihe ihf =>
    cases he with
    | sum _ hwe hwf =>
      obtain ⟨t, t', ht, ht', _⟩ := exists_of_shape_sum hs
      obtain ⟨u, w, hu, hw, hadd⟩ := exists_of_run_sum hv
      have heu : e.eval = .ok u := (eval_of_shape ht).trans hu
      have hfw : f.eval = .ok w := (eval_of_shape ht').trans hw
      rw [Value.positions_of_add hadd, pattern, scalar?_of_eval heu, scalar?_of_eval hfw,
        rows_of_eval heu, rows_of_eval hfw, ← ihe hwe ht hu, ← ihf hwf ht' hw]
      rfl
  | transpose e ih =>
    cases he with
    | transpose he =>
      obtain ⟨t, ht, _⟩ := exists_of_shape_transpose hs
      obtain ⟨u, hu, htr⟩ := exists_of_run_transpose hv
      rw [Value.positions_of_transpose (wellFormed_of_run he hu) htr, pattern, ih he ht hu]
  | operator op =>
    obtain ⟨a, ha, rfl⟩ := exists_of_run_operator hv
    rw [pattern, ha]
    rfl
  | blockMatrix grid => cases hv
  | blockVector blocks => cases hv

/-- What is stored in a matrix that an expression evaluates to is its symbolic pattern, each
position once. An expression that differs in nothing but numbers evaluates alike or fails alike. -/
theorem pattern_outcome {e : Expr α} (he : e.WellFormed) :
    (∀ a, e.eval = .ok (.matrix a) → a.WellFormed ∧ a.positions = e.pattern) ∧
      ∀ e', e.Alike e' → Agree Value.Alike e.eval e'.eval :=
  ⟨fun _ ha => ⟨wellFormed_of_eval he ha, positions_of_run he (shape_of_eval ha) (run_of_eval ha)⟩,
    fun _ => alike_eval⟩

/-- Twice the identity plus a product, which cancels if the numbers are opposite. -/
def shiftedProduct (x y : Int) : Expr Int :=
  .sum .add (.scalar 2) (.product [.matrix ⟨2, [[(0, 1), (1, 1)], [(0, 1), (1, 1)]]⟩,
    .matrix ⟨1, [[(0, x)], [(0, y)]]⟩, .matrix ⟨2, [[(0, 1)]]⟩])

lemma wellFormed_shiftedProduct (x y : Int) : (shiftedProduct x y).WellFormed := by
  have hcolumn : SparseMatrix.WellFormed ⟨1, [[(0, x)], [(0, y)]]⟩ := by
    simp [SparseMatrix.WellFormed, SparseMatrix.RowWellFormed, Ascending]
  refine .sum .add (.scalar 2) (.product ?_)
  simp only [List.forall_mem_cons, List.not_mem_nil, false_imp_iff, implies_true, and_true]
  exact ⟨.matrix (by decide), .matrix hcolumn, .matrix (by decide)⟩

lemma alike_shiftedProduct (x y x' y' : Int) :
    (shiftedProduct x y).Alike (shiftedProduct x' y') :=
  .sum .add (.scalar 2) (.product
    (.cons (.matrix (.refl _)) (.cons (.matrix ⟨rfl, rfl⟩) (.cons (.matrix (.refl _)) .nil))))

theorem pattern_outcome_shiftedProduct : (shiftedProduct 1 (-1)).WellFormed ∧
    SparseMatrix.positions (SparseMatrix.mk 2 [[(0, 2)], [(0, 0), (1, (2 : Int))]]) =
      (shiftedProduct 1 (-1)).pattern ∧
    Agree Value.Alike (shiftedProduct 1 (-1)).eval (shiftedProduct 5 7).eval := by
  have h := pattern_outcome (wellFormed_shiftedProduct 1 (-1))
  exact ⟨wellFormed_shiftedProduct 1 (-1), (h.1 _ rfl).2, h.2 _ (alike_shiftedProduct 1 (-1) 5 7)⟩

end Expr
end BlockSparse
