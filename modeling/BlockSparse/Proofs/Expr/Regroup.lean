import BlockSparse.Proofs.Expr.Pattern
import BlockSparse.Proofs.Expr.Yield
import Mathlib.Algebra.Ring.Int.Defs

/-! Regrouping of products. In exact arithmetic the operands of a product may be grouped into chains
in any way, and those that are scalars may stand anywhere: the shape stays the same, and so does the
value with all that it stores. Only an empty chain is no product of anything. -/
namespace BlockSparse.Expr
variable {α : Type}

mutual

/-- An expression that multiplies operands in the order of a list, grouped in any way. -/
inductive Multiplies : List (Expr α) → Expr α → Prop
  | operand (x : Expr α) : Multiplies [x] x
  | chain {xs es : List (Expr α)} (h : Concatenates xs es) (hne : es ≠ []) :
    Multiplies xs (.product es)
  | times {xs ys : List (Expr α)} {e f : Expr α} (he : Multiplies xs e) (hne : e ≠ .product [])
    (hf : Multiplies ys f) : Multiplies (xs ++ ys) (e * f)

/-- A chain whose members multiply consecutive stretches of a list. -/
inductive Concatenates : List (Expr α) → List (Expr α) → Prop
  | nil : Concatenates [] []
  | cons {xs ys es : List (Expr α)} {e : Expr α} (he : Multiplies xs e)
    (hes : Concatenates ys es) : Concatenates (xs ++ ys) (e :: es)

end

/-- Multiplying from the right extends a chain or makes one. -/
lemma mul_cases (e f : Expr α) :
    (∃ chain, e = .product chain ∧ e * f = .product (chain ++ [f])) ∨ e * f = .product [e, f] := by
  cases e with
  | product chain => exact .inl ⟨chain, rfl, rfl⟩
  | _ => exact .inr rfl

section Grouping
variable {M : Type} [Monoid M] {g : Expr α → M}

/-- What multiplies along the chains of products. -/
def IsMultiplicative (g : Expr α → M) : Prop :=
  ∀ chain, (∀ x ∈ chain, x.WellFormed) → chain ≠ [] → g (.product chain) = (chain.map g).prod

lemma IsMultiplicative.mul (hg : IsMultiplicative g) {e f : Expr α} (he : e.WellFormed)
    (hf : f.WellFormed) (hne : e ≠ .product []) :
    (e * f).WellFormed ∧ g (e * f) = g e * g f := by
  obtain ⟨chain, rfl, h⟩ | h := mul_cases e f
  · rw [wellFormed_product_iff] at he
    have hall : ∀ x ∈ chain ++ [f], x.WellFormed :=
      List.forall_mem_append.2 ⟨he, List.forall_mem_singleton.2 hf⟩
    -- an empty chain would become the product of `f` alone
    have hchain : chain ≠ [] := fun hnil => hne (congrArg Expr.product hnil)
    rw [h, hg _ hall (by simp), hg _ he hchain, List.map_append, List.prod_append,
      List.map_singleton, List.prod_singleton]
    exact ⟨.product hall, rfl⟩
  · have hall : ∀ x ∈ [e, f], x.WellFormed :=
      List.forall_mem_cons.2 ⟨he, List.forall_mem_singleton.2 hf⟩
    rw [h, hg _ hall (List.cons_ne_nil e [f]), List.map_cons, List.map_singleton, List.prod_cons,
      List.prod_singleton]
    exact ⟨.product hall, rfl⟩

mutual

/-- What multiplies along chains does not depend on how operands are grouped. -/
theorem Multiplies.prod_eq (hg : IsMultiplicative g) :
    ∀ {xs : List (Expr α)} {e : Expr α}, Multiplies xs e → (∀ x ∈ xs, x.WellFormed) →
      e.WellFormed ∧ g e = (xs.map g).prod
  | _, _, .operand x, hx => by
    rw [List.map_singleton, List.prod_singleton]
    exact ⟨hx x (List.mem_singleton_self x), rfl⟩
  | _, _, .chain h hne, hx => by
    obtain ⟨hwf, hprod⟩ := h.prod_eq hg hx
    exact ⟨.product hwf, (hg _ hwf hne).trans hprod⟩
  | _, _, .times he hne hf, hx => by
    obtain ⟨hxs, hys⟩ := List.forall_mem_append.1 hx
    obtain ⟨hwe, hge⟩ := he.prod_eq hg hxs
    obtain ⟨hwf, hgf⟩ := hf.prod_eq hg hys
    obtain ⟨hwef, hmul⟩ := hg.mul hwe hwf hne
    rw [hmul, hge, hgf, List.map_append, List.prod_append]
    exact ⟨hwef, rfl⟩

theorem Concatenates.prod_eq (hg : IsMultiplicative g) :
    ∀ {xs es : List (Expr α)}, Concatenates xs es → (∀ x ∈ xs, x.WellFormed) →
      (∀ e ∈ es, e.WellFormed) ∧ (es.map g).prod = (xs.map g).prod
  | _, _, .nil, _ => ⟨fun _ h => absurd h List.not_mem_nil, rfl⟩
  | _, _, .cons he hes, hx => by
    obtain ⟨hxs, hys⟩ := List.forall_mem_append.1 hx
    obtain ⟨hwe, hge⟩ := he.prod_eq hg hxs
    obtain ⟨hwes, hges⟩ := hes.prod_eq hg hys
    rw [List.map_cons, List.prod_cons, hge, hges, List.map_append, List.prod_append]
    exact ⟨List.forall_mem_cons.2 ⟨hwe, hwes⟩, rfl⟩

end

end Grouping

/-- The shape of a product is the product of the shapes. -/
lemma isMultiplicative_shapeYield : IsMultiplicative (shapeYield (α := α)) :=
  fun _ _ => shapeYield_product

variable [CommRing α] [BEq α]

/-- A product yields the product of what its operands yield. -/
lemma isMultiplicative_yield : IsMultiplicative (yield (α := α)) := fun _ => yield_product

lemma exists_of_isSome_scalar? {x : Expr α} (h : x.scalar?.isSome) :
    ∃ s, x.eval = .ok (.scalar s) := by
  obtain ⟨s, hs⟩ := Option.isSome_iff_exists.1 h
  obtain ⟨v, hv, hvs⟩ := Option.bind_eq_some_iff.1 hs
  cases v with
  | scalar t => exact ⟨t, Traversal.toOption_eq_some_iff.1 hv⟩
  | matrix a => cases hvs
  | vector y => cases hvs

lemma commute_shapeYield {x : Expr α} (h : x.scalar?.isSome) (y : Partial (Option Shape)) :
    Commute x.shapeYield y := by
  obtain ⟨s, hs⟩ := exists_of_isSome_scalar? h
  rw [shapeYield_eq_some_iff.2 (shape_of_eval hs)]
  exact Commute.one_left y

lemma commute_yield {x : Expr α} (h : x.scalar?.isSome) (y : Partial (Value.Valid α)) :
    Commute x.yield y := by
  obtain ⟨s, hs⟩ := exists_of_isSome_scalar? h
  rw [yield_eq_some_iff (x := ⟨.scalar s, trivial⟩).2 hs]
  exact Partial.commute_some (fun b => congrArg Value.valid? (Value.mul_scalar_comm s b.1)) y

/-- The same operands, those that are no scalars in the same order and the scalars in any. -/
structure SameOperands (xs ys : List (Expr α)) : Prop where
  shaped : (xs.filter fun x => !x.scalar?.isSome) = ys.filter fun x => !x.scalar?.isSome
  scalars : (xs.filter fun x => x.scalar?.isSome).Perm (ys.filter fun x => x.scalar?.isSome)

variable {xs ys : List (Expr α)} {e f : Expr α}

lemma SameOperands.mem (h : SameOperands xs ys) {y : Expr α} (hy : y ∈ ys) : y ∈ xs := by
  cases hs : y.scalar?.isSome with
  | true =>
    have hmem : y ∈ xs.filter fun x => x.scalar?.isSome :=
      h.scalars.mem_iff.2 (List.mem_filter.2 ⟨hy, hs⟩)
    exact (List.mem_filter.1 hmem).1
  | false =>
    have hmem : y ∈ ys.filter fun x => !x.scalar?.isSome :=
      List.mem_filter.2 ⟨hy, by rw [hs]; rfl⟩
    rw [← h.shaped] at hmem
    exact (List.mem_filter.1 hmem).1

/-- Products of the same operands have the same shape and the same value, or neither of them has
one: how the operands are grouped into chains does not matter, nor where those stand that are
scalars. -/
theorem regrouped_outcome (hx : ∀ x ∈ xs, x.WellFormed) (he : Multiplies xs e)
    (hf : Multiplies ys f) (h : SameOperands xs ys) :
    (∀ s, e.shape = .ok s ↔ f.shape = .ok s) ∧ ∀ v, e.eval = .ok v ↔ f.eval = .ok v := by
  have hy : ∀ y ∈ ys, y.WellFormed := fun y hy => hx y (h.mem hy)
  have hshape : e.shapeYield = f.shapeYield := by
    rw [(he.prod_eq isMultiplicative_shapeYield hx).2,
      (hf.prod_eq isMultiplicative_shapeYield hy).2]
    exact prod_map_eq_of_perm (fun x _ => commute_shapeYield) h.scalars h.shaped
  have hyield : e.yield = f.yield := by
    rw [(he.prod_eq isMultiplicative_yield hx).2, (hf.prod_eq isMultiplicative_yield hy).2]
    exact prod_map_eq_of_perm (fun x _ => commute_yield) h.scalars h.shaped
  have hwe : e.WellFormed := (he.prod_eq isMultiplicative_shapeYield hx).1
  have hwf : f.WellFormed := (hf.prod_eq isMultiplicative_shapeYield hy).1
  refine ⟨fun s => ?_, eval_iff_of_yield_eq hwe hwf hyield⟩
  rw [← shapeYield_eq_some_iff, ← shapeYield_eq_some_iff, hshape]

/-- A matrix that stores a zero, and nothing else, in its second column. -/
def zeroColumn : Expr Int := .matrix ⟨2, [[(0, 1)], [(0, 3), (1, 0)]]⟩

/-- A sum that comes out as a scalar. -/
def onePlusTwo : Expr Int := .sum .add (.scalar 1) (.scalar 2)

/-- A row, turned into a column. -/
def turnedRow : Expr Int := .transpose (.matrix ⟨2, [[(0, -1), (1, 4)]]⟩)

theorem regrouped_outcome_zeroColumn :
    (∀ x ∈ [zeroColumn, onePlusTwo, turnedRow], x.WellFormed) ∧
    Multiplies [zeroColumn, onePlusTwo, turnedRow]
      (.product [zeroColumn, .product [onePlusTwo, turnedRow]]) ∧
    Multiplies [zeroColumn, turnedRow, onePlusTwo] (zeroColumn * turnedRow * onePlusTwo) ∧
    SameOperands [zeroColumn, onePlusTwo, turnedRow] [zeroColumn, turnedRow, onePlusTwo] ∧
    (zeroColumn * turnedRow * onePlusTwo).eval = .ok (.matrix ⟨1, [[(0, -3)], [(0, -9)]]⟩) := by
  have hwf : ∀ x ∈ [zeroColumn, onePlusTwo, turnedRow], x.WellFormed := by
    simp only [List.forall_mem_cons, List.not_mem_nil, false_imp_iff, implies_true, and_true]
    exact ⟨.matrix (by decide), .sum .add (.scalar 1) (.scalar 2),
      .transpose (.matrix (by decide))⟩
  have hchain : Multiplies [zeroColumn, onePlusTwo, turnedRow]
      (.product [zeroColumn, .product [onePlusTwo, turnedRow]]) :=
    .chain (.cons (.operand _) (.cons (.chain (.cons (.operand _) (.cons (.operand _) .nil))
      (List.cons_ne_nil _ _)) .nil)) (List.cons_ne_nil _ _)
  have hpair : Multiplies [zeroColumn, turnedRow] (zeroColumn * turnedRow) :=
    .times (.operand zeroColumn) (fun h => nomatch h) (.operand turnedRow)
  have htimes : Multiplies [zeroColumn, turnedRow, onePlusTwo]
      (zeroColumn * turnedRow * onePlusTwo) :=
    .times hpair (fun h => nomatch h) (.operand onePlusTwo)
  have hsame : SameOperands [zeroColumn, onePlusTwo, turnedRow]
      [zeroColumn, turnedRow, onePlusTwo] := ⟨rfl, .refl _⟩
  exact ⟨hwf, hchain, htimes, hsame, ((regrouped_outcome hwf hchain htimes hsame).2 _).1 rfl⟩

end BlockSparse.Expr
