import BlockSparse.Proofs.Expr.Yield
import BlockSparse.Proofs.Value.Transpose
import Mathlib.Algebra.Ring.Int.Defs
import Mathlib.Logic.Relation

/-! Pushing transposes to the leaves. The transpose of a product is rewritten to the product of the
transposes in the other order, the transpose of a sum to the sum of the transposes, and a transpose
of a transpose is left away. In exact arithmetic and without vectors each such step keeps the value
of an expression, or keeps it from having one; and the steps lead to an expression in which
transposes stand only where they cannot be pushed any further. -/
namespace BlockSparse.Expr
variable {α : Type}

/-- No vector stands anywhere in an expression. -/
inductive VectorFree : Expr α → Prop
  | scalar (s : α) : VectorFree (.scalar s)
  | matrix (a : SparseMatrix α) : VectorFree (.matrix a)
  | product {chain : List (Expr α)} (h : ∀ e ∈ chain, VectorFree e) : VectorFree (.product chain)
  | sum (op : SumOp) {e f : Expr α} (he : VectorFree e) (hf : VectorFree f) :
    VectorFree (.sum op e f)
  | transpose {e : Expr α} (he : VectorFree e) : VectorFree (.transpose e)
  | operator (op : LinearOperator α) : VectorFree (.operator op)
  | blockMatrix {grid : Grid (Expr α)} (h : ∀ e ∈ grid.cells, VectorFree e) :
    VectorFree (.blockMatrix grid)
  | blockVector {blocks : List (Expr α)} (h : ∀ e ∈ blocks, VectorFree e) :
    VectorFree (.blockVector blocks)

/-- A transpose is pushed one level down, somewhere in an expression. -/
inductive Step : Expr α → Expr α → Prop
  | product (chain : List (Expr α)) :
    Step (.transpose (.product chain)) (.product (chain.map .transpose).reverse)
  | sum (op : SumOp) (e f : Expr α) :
    Step (.transpose (.sum op e f)) (.sum op (.transpose e) (.transpose f))
  | transpose (e : Expr α) : Step (.transpose (.transpose e)) e
  | inProduct (before after : List (Expr α)) {e f : Expr α} (h : Step e f) :
    Step (.product (before ++ e :: after)) (.product (before ++ f :: after))
  | inLeft (op : SumOp) {e f : Expr α} (h : Step e f) (right : Expr α) :
    Step (.sum op e right) (.sum op f right)
  | inRight (op : SumOp) (left : Expr α) {e f : Expr α} (h : Step e f) :
    Step (.sum op left e) (.sum op left f)
  | inTranspose {e f : Expr α} (h : Step e f) : Step (.transpose e) (.transpose f)
  | inCell (numRows numCols : Nat) (before after : List (Expr α)) {e f : Expr α} (h : Step e f) :
    Step (.blockMatrix ⟨numRows, numCols, before ++ e :: after⟩)
      (.blockMatrix ⟨numRows, numCols, before ++ f :: after⟩)
  | inComponent (before after : List (Expr α)) {e f : Expr α} (h : Step e f) :
    Step (.blockVector (before ++ e :: after)) (.blockVector (before ++ f :: after))

section Parts
variable {e f : Expr α}

@[simp] lemma vectorFree_product_iff {chain : List (Expr α)} :
    (Expr.product chain).VectorFree ↔ ∀ e ∈ chain, e.VectorFree := by
  refine ⟨fun h => ?_, .product⟩
  cases h with
  | product h => exact h

@[simp] lemma vectorFree_sum_iff {op : SumOp} :
    (Expr.sum op e f).VectorFree ↔ e.VectorFree ∧ f.VectorFree := by
  refine ⟨fun h => ?_, fun h => .sum op h.1 h.2⟩
  cases h with
  | sum _ he hf => exact ⟨he, hf⟩

@[simp] lemma vectorFree_transpose_iff : (Expr.transpose e).VectorFree ↔ e.VectorFree := by
  refine ⟨fun h => ?_, .transpose⟩
  cases h with
  | transpose he => exact he

@[simp] lemma vectorFree_blockMatrix_iff {grid : Grid (Expr α)} :
    (Expr.blockMatrix grid).VectorFree ↔ ∀ e ∈ grid.cells, e.VectorFree := by
  refine ⟨fun h => ?_, .blockMatrix⟩
  cases h with
  | blockMatrix h => exact h

@[simp] lemma vectorFree_blockVector_iff {blocks : List (Expr α)} :
    (Expr.blockVector blocks).VectorFree ↔ ∀ e ∈ blocks, e.VectorFree := by
  refine ⟨fun h => ?_, .blockVector⟩
  cases h with
  | blockVector h => exact h

lemma forall_mem_around {P : Expr α → Prop} {before after : List (Expr α)} :
    (∀ x ∈ before ++ e :: after, P x) ↔ (∀ x ∈ before, P x) ∧ P e ∧ ∀ x ∈ after, P x := by
  rw [List.forall_mem_append, List.forall_mem_cons]

lemma Step.wellFormed (h : Step e f) (he : e.WellFormed) : f.WellFormed := by
  induction h with
  | product chain => simpa using he
  | sum op e f => simpa using he
  | transpose e => simpa using he
  | inProduct before after h ih =>
    rw [wellFormed_product_iff, forall_mem_around] at he ⊢
    exact ⟨he.1, ih he.2.1, he.2.2⟩
  | inLeft op h right ih =>
    rw [wellFormed_sum_iff] at he ⊢
    exact ⟨ih he.1, he.2⟩
  | inRight op left h ih =>
    rw [wellFormed_sum_iff] at he ⊢
    exact ⟨he.1, ih he.2⟩
  | inTranspose h ih =>
    rw [wellFormed_transpose_iff] at he ⊢
    exact ih he
  | inCell numRows numCols before after h ih =>
    rw [wellFormed_blockMatrix_iff, forall_mem_around] at he ⊢
    exact ⟨by simpa [Grid.WellFormed] using he.1, he.2.1, ih he.2.2.1, he.2.2.2⟩
  | inComponent before after h ih =>
    rw [wellFormed_blockVector_iff, forall_mem_around] at he ⊢
    exact ⟨he.1, ih he.2.1, he.2.2⟩

lemma Step.vectorFree (h : Step e f) (he : e.VectorFree) : f.VectorFree := by
  induction h with
  | product chain => simpa using he
  | sum op e f => simpa using he
  | transpose e => simpa using he
  | inProduct before after h ih =>
    rw [vectorFree_product_iff, forall_mem_around] at he ⊢
    exact ⟨he.1, ih he.2.1, he.2.2⟩
  | inLeft op h right ih =>
    rw [vectorFree_sum_iff] at he ⊢
    exact ⟨ih he.1, he.2⟩
  | inRight op left h ih =>
    rw [vectorFree_sum_iff] at he ⊢
    exact ⟨he.1, ih he.2⟩
  | inTranspose h ih =>
    rw [vectorFree_transpose_iff] at he ⊢
    exact ih he
  | inCell numRows numCols before after h ih =>
    rw [vectorFree_blockMatrix_iff, forall_mem_around] at he ⊢
    exact ⟨he.1, ih he.2.1, he.2.2⟩
  | inComponent before after h ih =>
    rw [vectorFree_blockVector_iff, forall_mem_around] at he ⊢
    exact ⟨he.1, ih he.2.1, he.2.2⟩

end Parts

/-- Any number of steps. -/
abbrev Rewrites : Expr α → Expr α → Prop := Relation.ReflTransGen Step

/-- Whether a transpose in front of the expression can be pushed into it. -/
def isDivisible : Expr α → Bool
  | .product _ | .sum .. | .transpose _ => true
  | _ => false

/-- Transposes stand only where they cannot be pushed any further. -/
inductive Pushed : Expr α → Prop
  | scalar (s : α) : Pushed (.scalar s)
  | matrix (a : SparseMatrix α) : Pushed (.matrix a)
  | vector (x : DenseVector α) : Pushed (.vector x)
  | product {chain : List (Expr α)} (h : ∀ e ∈ chain, Pushed e) : Pushed (.product chain)
  | sum (op : SumOp) {e f : Expr α} (he : Pushed e) (hf : Pushed f) : Pushed (.sum op e f)
  | transpose {e : Expr α} (he : Pushed e) (hstop : e.isDivisible = false) : Pushed (.transpose e)
  | operator (op : LinearOperator α) : Pushed (.operator op)
  | blockMatrix {grid : Grid (Expr α)} (h : ∀ e ∈ grid.cells, Pushed e) :
    Pushed (.blockMatrix grid)
  | blockVector {blocks : List (Expr α)} (h : ∀ e ∈ blocks, Pushed e) :
    Pushed (.blockVector blocks)

section Normal

/-- The transpose of an expression, or the expression itself. -/
def turn (b : Bool) (e : Expr α) : Expr α := if b then .transpose e else e

mutual

/-- An expression, or its transpose, with all transposes pushed as far as they go. -/
def push : Bool → Expr α → Expr α
  | b, .product chain => .product (if b then (pushAll b chain).reverse else pushAll b chain)
  | b, .sum op e f => .sum op (push b e) (push b f)
  | b, .transpose e => push (!b) e
  | b, .blockMatrix ⟨numRows, numCols, cells⟩ =>
    turn b (.blockMatrix ⟨numRows, numCols, pushAll false cells⟩)
  | b, .blockVector blocks => turn b (.blockVector (pushAll false blocks))
  | b, .scalar s => turn b (.scalar s)
  | b, .matrix a => turn b (.matrix a)
  | b, .vector x => turn b (.vector x)
  | b, .operator op => turn b (.operator op)

/-- Pushes transposes in each expression of a list. -/
def pushAll : Bool → List (Expr α) → List (Expr α)
  | _, [] => []
  | b, e :: es => push b e :: pushAll b es

end

lemma pushAll_eq_map (b : Bool) (es : List (Expr α)) : pushAll b es = es.map (push b) := by
  induction es with
  | nil => rfl
  | cons e es ih => rw [pushAll, ih, List.map_cons]

variable {e e' f f' : Expr α} {es fs : List (Expr α)}

lemma rewrites_turn (b : Bool) (h : Rewrites e f) : Rewrites (turn b e) (turn b f) := by
  cases b with
  | false => exact h
  | true => exact h.lift Expr.transpose fun _ _ => Step.inTranspose

lemma rewrites_sum (op : SumOp) (he : Rewrites e e') (hf : Rewrites f f') :
    Rewrites (.sum op e f) (.sum op e' f') := by
  have hleft : Rewrites (.sum op e f) (.sum op e' f) :=
    he.lift (Expr.sum op · f) fun _ _ h => Step.inLeft op h f
  have hright : Rewrites (.sum op e' f) (.sum op e' f') :=
    hf.lift (Expr.sum op e') fun _ _ h => Step.inRight op e' h
  exact hleft.trans hright

/-- The members of a list are rewritten one after the other. -/
lemma rewrites_all {F : List (Expr α) → Expr α} (hF : ∀ before after e f, Step e f →
    Step (F (before ++ e :: after)) (F (before ++ f :: after))) (h : List.Forall₂ Rewrites es fs) :
    Rewrites (F es) (F fs) := by
  -- what stands before has been rewritten already
  have hfrom : ∀ before, Rewrites (F (before ++ es)) (F (before ++ fs)) := by
    induction h with
    | nil => exact fun _ => .refl
    | @cons e f es fs hef _ ih =>
      intro before
      have hhead : Rewrites (F (before ++ e :: es)) (F (before ++ f :: es)) :=
        hef.lift (fun g => F (before ++ g :: es)) fun _ _ => hF before es _ _
      have htail := ih (before ++ [f])
      rw [List.append_assoc, List.append_assoc] at htail
      exact hhead.trans htail
  exact hfrom []

lemma forall₂_map_push (h : ∀ e ∈ es, Rewrites e (push false e)) :
    List.Forall₂ Rewrites es (es.map (push false)) := by
  rw [List.forall₂_map_right_iff, List.forall₂_same]
  exact h

/-- The steps lead to where all transposes are pushed as far as they go. -/
theorem rewrites_push (e : Expr α) (b : Bool) : Rewrites (turn b e) (push b e) := by
  induction e generalizing b with
  | scalar s => exact .refl
  | matrix a => exact .refl
  | vector x => exact .refl
  | product chain ih =>
    rw [push, pushAll_eq_map]
    cases b with
    | false =>
      exact rewrites_all (fun before after _ _ => .inProduct before after)
        (forall₂_map_push fun e he => ih e he false)
    | true =>
      have hchain : List.Forall₂ Rewrites (chain.map .transpose) (chain.map (push true)) := by
        rw [List.forall₂_map_left_iff, List.forall₂_map_right_iff, List.forall₂_same]
        exact fun e he => ih e he true
      exact .head (.product chain) (rewrites_all
        (fun before after _ _ => .inProduct before after) (List.rel_reverse hchain))
  | sum op e f ihe ihf =>
    rw [push]
    cases b with
    | false => exact rewrites_sum op (ihe false) (ihf false)
    | true => exact .head (.sum op e f) (rewrites_sum op (ihe true) (ihf true))
  | transpose e ih =>
    rw [push]
    cases b with
    | false => exact ih true
    | true => exact .head (.transpose e) (ih false)
  | operator op => exact .refl
  | blockMatrix grid ih =>
    obtain ⟨numRows, numCols, cells⟩ := grid
    have hcells := forall₂_map_push fun e he => ih e he false
    rw [push, pushAll_eq_map]
    exact rewrites_turn b (rewrites_all (F := fun cells => .blockMatrix ⟨numRows, numCols, cells⟩)
      (fun before after _ _ => .inCell numRows numCols before after) hcells)
  | blockVector blocks ih =>
    have hblocks := forall₂_map_push fun e he => ih e he false
    rw [push, pushAll_eq_map]
    exact rewrites_turn b (rewrites_all (fun before after _ _ => .inComponent before after) hblocks)

lemma pushed_turn (h : e.Pushed) (hstop : e.isDivisible = false) (b : Bool) :
    (turn b e).Pushed := by
  cases b with
  | false => exact h
  | true => exact .transpose h hstop

theorem pushed_push (e : Expr α) (b : Bool) : (push b e).Pushed := by
  induction e generalizing b with
  | scalar s => exact pushed_turn (.scalar s) rfl b
  | matrix a => exact pushed_turn (.matrix a) rfl b
  | vector x => exact pushed_turn (.vector x) rfl b
  | product chain ih =>
    have hall : ∀ e ∈ chain.map (push b), e.Pushed := by
      rw [List.forall_mem_map]
      exact fun e he => ih e he b
    rw [push, pushAll_eq_map]
    cases b with
    | false => exact .product hall
    | true => exact .product fun e he => hall e (List.mem_reverse.1 he)
  | sum op e f ihe ihf => exact .sum op (ihe b) (ihf b)
  | transpose e ih => exact ih (!b)
  | operator op => exact pushed_turn (.operator op) rfl b
  | blockMatrix grid ih =>
    obtain ⟨numRows, numCols, cells⟩ := grid
    rw [push, pushAll_eq_map]
    refine pushed_turn (.blockMatrix ?_) rfl b
    exact List.forall_mem_map.2 fun e he => ih e he false
  | blockVector blocks ih =>
    rw [push, pushAll_eq_map]
    refine pushed_turn (.blockVector ?_) rfl b
    exact List.forall_mem_map.2 fun e he => ih e he false

/-- A step does not change where the transposes are pushed in the end. -/
lemma Step.push_eq (h : Step e f) (b : Bool) : push b e = push b f := by
  induction h generalizing b with
  | product chain =>
    have hturned : (push b ∘ Expr.transpose : Expr α → Expr α) = push (!b) := rfl
    rw [push, push, push, pushAll_eq_map, pushAll_eq_map, List.map_reverse, List.map_map, hturned]
    cases b with
    | false => rfl
    | true => exact congrArg Expr.product (List.reverse_reverse _).symm
  | sum op e f => rfl
  | transpose e =>
    rw [push, push, Bool.not_not]
  | inProduct before after h ih =>
    rw [push, push, pushAll_eq_map, pushAll_eq_map, List.map_append, List.map_append,
      List.map_cons, List.map_cons, ih]
  | inLeft op h right ih => rw [push, push, ih]
  | inRight op left h ih => rw [push, push, ih]
  | inTranspose h ih => rw [push, push, ih]
  | inCell numRows numCols before after h ih =>
    rw [push, push, pushAll_eq_map, pushAll_eq_map, List.map_append, List.map_append,
      List.map_cons, List.map_cons, ih]
  | inComponent before after h ih =>
    rw [push, push, pushAll_eq_map, pushAll_eq_map, List.map_append, List.map_append,
      List.map_cons, List.map_cons, ih]

lemma push_of_not_divisible (h : e.isDivisible = false) (b : Bool) :
    push b e = turn b (push false e) := by
  cases e with
  | product chain => cases h
  | sum op e f => cases h
  | transpose e => cases h
  | _ => rfl

lemma pushAll_eq_self (h : ∀ e ∈ es, push false e = e) : pushAll false es = es := by
  rw [pushAll_eq_map, List.map_congr_left h, List.map_id']

/-- Where the transposes are pushed as far as they go, nothing is left to push. -/
lemma Pushed.push_eq (h : e.Pushed) : push false e = e := by
  induction e with
  | scalar s => rfl
  | matrix a => rfl
  | vector x => rfl
  | product chain ih =>
    cases h with
    | product h =>
      exact congrArg Expr.product (pushAll_eq_self fun e he => ih e he (h e he))
  | sum op e f ihe ihf =>
    cases h with
    | sum _ he hf => rw [push, ihe he, ihf hf]
  | transpose e ih =>
    cases h with
    | transpose he hstop =>
      rw [push, push_of_not_divisible hstop, ih he]
      rfl
  | operator op => rfl
  | blockMatrix grid ih =>
    cases h with
    | blockMatrix h =>
      obtain ⟨numRows, numCols, cells⟩ := grid
      rw [push, pushAll_eq_self fun e he => ih e he (h e he)]
      rfl
  | blockVector blocks ih =>
    cases h with
    | blockVector h =>
      rw [push, pushAll_eq_self fun e he => ih e he (h e he)]
      rfl

lemma Rewrites.push_eq (h : Rewrites e f) (b : Bool) : push b e = push b f := by
  induction h with
  | refl => rfl
  | tail _ hstep ih => exact ih.trans (hstep.push_eq b)

/-- Whatever way transposes are pushed, they come to stand in the same places. -/
theorem existsUnique_pushed (e : Expr α) : ∃! n, Rewrites e n ∧ n.Pushed := by
  refine ⟨push false e, ⟨rewrites_push e false, pushed_push e false⟩, ?_⟩
  rintro n ⟨hn, hpushed⟩
  rw [← hpushed.push_eq, hn.push_eq]

end Normal

/-- The shape of an expression without vectors is not that of a vector. -/
lemma VectorFree.noVector_shape {e : Expr α} (hv : e.VectorFree) {s : Option Shape}
    (h : e.shape = .ok s) : Shape.NoVector s := by
  induction e generalizing s with
  | scalar t =>
    cases h
    exact nofun
  | matrix a =>
    cases h
    exact nofun
  | vector x => cases hv
  | product chain ih =>
    cases hv with
    | product hv =>
      change chainShape chain = .ok s at h
      induction chain generalizing s with
      | nil => cases h
      | cons e chain ihc =>
        obtain ⟨he, hrest⟩ := List.forall_mem_cons.1 hv
        cases chain with
        | nil => exact ih e List.mem_cons_self he h
        | cons f chain =>
          obtain ⟨t, u, ht, hu, hprod⟩ := exists_of_chainShape_cons h
          refine Shape.noVector_product hprod (ih e List.mem_cons_self he ht) ?_
          exact ihc (fun f hf => ih f (List.mem_cons_of_mem e hf)) hrest hu
  | sum op e f ihe ihf =>
    cases hv with
    | sum _ he hf =>
      obtain ⟨t, u, ht, hu, hsum⟩ := exists_of_shape_sum h
      exact Shape.noVector_sum hsum (ihe he ht) (ihf hf hu)
  | transpose e ih =>
    obtain ⟨t, _, htr⟩ := exists_of_shape_transpose h
    exact Shape.noVector_transpose htr
  | operator op =>
    rw [shape] at h
    cases hm : op.matrix? with
    | none =>
      rw [hm] at h
      cases h
    | some a =>
      rw [hm] at h
      cases h
      exact nofun
  | blockMatrix grid => cases h
  | blockVector blocks => cases h

section Sound
variable [CommRing α] [BEq α] {e f : Expr α}

lemma yield_transpose (he : e.WellFormed) : yield (.transpose e) = Value.turned e.yield := by
  have hu : ∀ u, (run e).result = .ok u → u.WellFormed := fun u => wellFormed_of_run he
  rw [yield, result_run_transpose, Value.valid?_bind hu]
  rfl

lemma yield_sum (op : SumOp) (he : e.WellFormed) (hf : f.WellFormed) :
    yield (.sum op e f) =
      Value.applied (fun u v => (Value.add op u v).result) e.yield f.yield := by
  have hu : ∀ u, (run e).result = .ok u → u.WellFormed := fun u => wellFormed_of_run he
  have hv : ∀ v, (run f).result = .ok v → v.WellFormed := fun v => wellFormed_of_run hf
  rw [yield, result_run_sum, Value.valid?_bind hu]
  simp only [Value.valid?_bind hv]
  rfl

lemma noVector_of_yield (hv : e.VectorFree) {x : Value.Valid α} (h : e.yield = .some x) :
    Shape.NoVector x.1.shape? := hv.noVector_shape (shape_of_eval (yield_eq_some_iff.1 h))

/-- The transpose of a product yields what the product of the transposes does. -/
lemma yield_transpose_product {chain : List (Expr α)} (h : ∀ e ∈ chain, e.WellFormed) :
    yield (.product (chain.map .transpose).reverse) = yield (.transpose (.product chain)) := by
  cases chain with
  | nil => rfl
  | cons e chain =>
    have hall : ∀ f ∈ ((e :: chain).map Expr.transpose).reverse, f.WellFormed := by
      intro f hf
      obtain ⟨g, hg, rfl⟩ := List.mem_map.1 (List.mem_reverse.1 hf)
      exact .transpose (h g hg)
    have hturn : ((e :: chain).map Expr.transpose).map yield =
        ((e :: chain).map yield).map Value.turned := by
      rw [List.map_map, List.map_map]
      exact List.map_congr_left fun f hf => yield_transpose (h f hf)
    rw [yield_transpose (.product h), yield_product h (List.cons_ne_nil e chain),
      yield_product hall (by simp), Value.turned_prod, List.map_reverse, hturn]

/-- A step keeps what an expression yields. -/
theorem Step.yield_eq (h : Step e f) (hwf : e.WellFormed) (hv : e.VectorFree) :
    f.yield = e.yield := by
  induction h with
  | product chain => exact yield_transpose_product (by simpa using hwf)
  | sum op e f =>
    obtain ⟨he, hf⟩ : e.WellFormed ∧ f.WellFormed := by simpa using hwf
    rw [yield_sum op (.transpose he) (.transpose hf), yield_transpose he, yield_transpose hf,
      yield_transpose (.sum op he hf), yield_sum op he hf, Value.turned_add]
  | transpose e =>
    have he : e.WellFormed := by simpa using hwf
    have hv : e.VectorFree := by simpa using hv
    rw [yield_transpose (.transpose he), yield_transpose he,
      Value.turned_turned fun x => noVector_of_yield hv]
  | @inProduct before after e f h ih =>
    have hf := wellFormed_product_iff.1 ((Step.inProduct before after h).wellFormed hwf)
    rw [wellFormed_product_iff] at hwf
    rw [vectorFree_product_iff, forall_mem_around] at hv
    rw [yield_product hf (by simp), yield_product hwf (by simp), List.map_append, List.map_append,
      List.map_cons, List.map_cons, ih (forall_mem_around.1 hwf).2.1 hv.2.1]
  | @inLeft op e f h right ih =>
    obtain ⟨he, hr⟩ := wellFormed_sum_iff.1 hwf
    rw [yield_sum op (h.wellFormed he) hr, yield_sum op he hr,
      ih he (vectorFree_sum_iff.1 hv).1]
  | @inRight op left e f h ih =>
    obtain ⟨hl, he⟩ := wellFormed_sum_iff.1 hwf
    rw [yield_sum op hl (h.wellFormed he), yield_sum op hl he,
      ih he (vectorFree_sum_iff.1 hv).2]
  | @inTranspose e f h ih =>
    have he := wellFormed_transpose_iff.1 hwf
    rw [yield_transpose (h.wellFormed he), yield_transpose he,
      ih he (vectorFree_transpose_iff.1 hv)]
  | inCell numRows numCols before after h ih => rfl
  | inComponent before after h ih => rfl

/-- Any number of steps keeps what an expression yields. -/
theorem Rewrites.yield_eq (h : Rewrites e f) (hwf : e.WellFormed) (hv : e.VectorFree) :
    f.WellFormed ∧ f.VectorFree ∧ f.yield = e.yield := by
  induction h with
  | refl => exact ⟨hwf, hv, rfl⟩
  | tail _ hstep ih =>
    obtain ⟨hwf', hv', heq⟩ := ih
    exact ⟨hstep.wellFormed hwf', hstep.vectorFree hv', (hstep.yield_eq hwf' hv').trans heq⟩

/-- Without vectors, transposing twice changes nothing, the errors included. -/
lemma eval_transpose_transpose (he : e.WellFormed) (hv : e.VectorFree) :
    (Expr.transpose (.transpose e)).eval = e.eval := by
  cases hs : e.shape with
  | error err =>
    have hs' : (Expr.transpose (.transpose e)).shape = .error err := by
      rw [shape, shape, hs]
      rfl
    rw [eval_of_shape_error hs, eval_of_shape_error hs']
  | ok s =>
    have hs' : (Expr.transpose (.transpose e)).shape = .ok s := by
      rw [shape, shape, hs]
      exact Shape.transpose_transpose (hv.noVector_shape hs)
    rw [eval_of_shape hs, eval_of_shape hs', result_run_transpose, result_run_transpose]
    cases hr : (run e).result with
    | error err => rfl
    | ok v =>
      have hvector : Shape.NoVector v.shape? := by
        rw [shape_of_run hs hr]
        exact hv.noVector_shape hs
      obtain ⟨w, hw⟩ := Value.exists_transposed hvector
      have hback := Value.transpose_of_transposed (hw.symm (wellFormed_of_run he hr))
      change (v.transpose.result >>= fun u => u.transpose.result) = .ok v
      rw [Value.transpose_of_transposed hw]
      exact hback

/-- The transpose of an expression without vectors may be pushed to the leaves: the steps lead to
one expression in which it is, and whatever they lead to has the same value as the transpose, or
none if the transpose has none. Transposing twice changes nothing. -/
theorem transpose_pushed_outcome (he : e.WellFormed) (hv : e.VectorFree) :
    (∃! n, Rewrites (.transpose e) n ∧ n.Pushed) ∧
    (∀ n, Rewrites (.transpose e) n →
      ∀ v, (Expr.transpose e).eval = .ok v ↔ n.eval = .ok v) ∧
    (Expr.transpose (.transpose e)).eval = e.eval := by
  refine ⟨existsUnique_pushed (.transpose e), fun n hn v => ?_, eval_transpose_transpose he hv⟩
  obtain ⟨hwf, _, hyield⟩ := hn.yield_eq (.transpose he) (.transpose hv)
  exact eval_iff_of_yield_eq (.transpose he) hwf hyield.symm v

end Sound

/-- The product of a matrix, of twice the identity less a transpose, and of a scalar. -/
def lessTransposed : Expr Int := .product [.matrix ⟨3, [[(0, 1), (2, 0)], []]⟩,
  .sum .subtract (.scalar 2) (.transpose (.matrix ⟨3, [[(1, 5)], [], [(0, 1)]]⟩)), .scalar 3]

/-- The transpose of that product, pushed to the leaves. -/
def lessPushed : Expr Int := .product [.transpose (.scalar 3),
  .sum .subtract (.transpose (.scalar 2)) (.matrix ⟨3, [[(1, 5)], [], [(0, 1)]]⟩),
  .transpose (.matrix ⟨3, [[(0, 1), (2, 0)], []]⟩)]

theorem transpose_pushed_outcome_lessTransposed :
    lessTransposed.WellFormed ∧ lessTransposed.VectorFree ∧
    Rewrites (.transpose lessTransposed) lessPushed ∧ lessPushed.Pushed ∧
    lessPushed.eval = .ok (.matrix ⟨2, [[(0, 6)], [], [(0, -3)]]⟩) ∧
    (Expr.transpose (.transpose lessTransposed)).eval = lessTransposed.eval := by
  have hwf : lessTransposed.WellFormed := by
    refine .product ?_
    simp only [List.forall_mem_cons, List.not_mem_nil, false_imp_iff, implies_true, and_true]
    exact ⟨.matrix (by decide), .sum .subtract (.scalar 2) (.transpose (.matrix (by decide))),
      .scalar 3⟩
  have hv : lessTransposed.VectorFree := by
    refine .product ?_
    simp only [List.forall_mem_cons, List.not_mem_nil, false_imp_iff, implies_true, and_true]
    exact ⟨.matrix _, .sum .subtract (.scalar 2) (.transpose (.matrix _)), .scalar 3⟩
  have hsteps : Rewrites (.transpose lessTransposed) lessPushed := rewrites_push lessTransposed true
  obtain ⟨_, hvalue, htwice⟩ := transpose_pushed_outcome hwf hv
  exact ⟨hwf, hv, hsteps, pushed_push lessTransposed true, (hvalue lessPushed hsteps _).1 rfl,
    htwice⟩

end BlockSparse.Expr
