import Mathlib.Algebra.BigOperators.Group.List.Lemmas

/-! Products that may be undefined. Where a product is associative in the sense that one way to
bracket it is defined exactly when the other one is, it becomes a total product once a result may be
missing. So products of lists are available, and with them what holds of any monoid: brackets do not
matter, and factors that commute with everything may stand anywhere. -/
namespace BlockSparse

/-- A product that may be undefined, with a unit. -/
class PartialMonoid (M : Type) where
  one : M
  mul? : M → M → Option M
  one_mul? : ∀ a, mul? one a = some a
  mul?_one : ∀ a, mul? a one = some a
  mul?_assoc : ∀ a b c, (mul? a b >>= fun x => mul? x c) = mul? b c >>= mul? a

/-- An element of a partial monoid, or none. -/
def Partial (M : Type) : Type := Option M

namespace Partial
variable {M : Type}

/-- An element that there is. -/
def some (a : M) : Partial M := Option.some a

/-- An element that is missing. -/
def none : Partial M := Option.none

variable [PartialMonoid M]

/-- The product of two elements, if both are there and have one. -/
def mul (x y : Partial M) : Partial M :=
  Option.bind x fun a => Option.bind y (PartialMonoid.mul? a)

lemma mul_missing (x : Partial M) : mul x none = none := by
  cases x <;> rfl

instance : Monoid (Partial M) where
  one := some PartialMonoid.one
  mul := mul
  one_mul x := by
    cases x with
    | none => rfl
    | some a => exact PartialMonoid.one_mul? a
  mul_one x := by
    cases x with
    | none => rfl
    | some a => exact PartialMonoid.mul?_one a
  mul_assoc x y z := by
    cases x with
    | none => rfl
    | some a =>
      cases y with
      | none => rfl
      | some b =>
        cases z with
        | none => exact mul_missing (PartialMonoid.mul? a b)
        | some c => exact PartialMonoid.mul?_assoc a b c

lemma commute_some {a : M} (h : ∀ b, PartialMonoid.mul? a b = PartialMonoid.mul? b a)
    (y : Partial M) : Commute (some a) y := by
  cases y with
  | none => rfl
  | some b => exact h b

end Partial

section Lists
variable {M ι : Type} [Monoid M] {f : ι → M} {p : ι → Bool} {xs ys : List ι}

/-- What multiplies each element onto what comes of the rest of a list is the product of the list.
Nothing is said of the empty list. -/
lemma eq_prod_of_cons_cons {g : List ι → M} {q : ι → Prop} (hone : ∀ x, g [x] = f x)
    (hcons : ∀ x y zs, (∀ z ∈ x :: y :: zs, q z) → g (x :: y :: zs) = f x * g (y :: zs))
    (hq : ∀ x ∈ xs, q x) (hne : xs ≠ []) : g xs = (xs.map f).prod := by
  induction xs with
  | nil => exact absurd rfl hne
  | cons x xs ih =>
    cases xs with
    | nil => rw [hone, List.map_singleton, List.prod_singleton]
    | cons y zs =>
      have hrest := ih (List.forall_mem_cons.1 hq).2 (List.cons_ne_nil y zs)
      rw [hcons x y zs hq, hrest]
      exact List.prod_cons.symm

/-- Factors that commute with everything may be moved to the front. -/
lemma prod_map_filter_mul (h : ∀ x ∈ xs, p x → ∀ y, Commute (f x) y) :
    (xs.map f).prod =
      ((xs.filter p).map f).prod * ((xs.filter fun x => !p x).map f).prod := by
  induction xs with
  | nil => simp
  | cons x xs ih =>
    have hrest := ih fun z hz => h z (List.mem_cons_of_mem x hz)
    cases hx : p x with
    | true => simp [hx, hrest, mul_assoc]
    | false =>
      have hcomm : Commute (f x) ((xs.filter p).map f).prod := by
        apply Commute.list_prod_right
        intro a ha
        obtain ⟨z, hz, rfl⟩ := List.mem_map.1 ha
        obtain ⟨hz, hpz⟩ := List.mem_filter.1 hz
        exact (h z (List.mem_cons_of_mem x hz) hpz (f x)).symm
      simp [hx, hrest, hcomm.left_comm]

/-- Only the order of the other factors matters. -/
lemma prod_map_eq_of_perm (h : ∀ x ∈ xs, p x → ∀ y, Commute (f x) y)
    (hperm : (xs.filter p).Perm (ys.filter p))
    (hrest : (xs.filter fun x => !p x) = ys.filter fun x => !p x) :
    (xs.map f).prod = (ys.map f).prod := by
  have hys : ∀ y ∈ ys, p y → ∀ z, Commute (f y) z := by
    intro y hy hpy
    have hmem : y ∈ xs.filter p := hperm.mem_iff.2 (List.mem_filter.2 ⟨hy, hpy⟩)
    exact h y (List.mem_filter.1 hmem).1 hpy
  have hcentral : ((xs.filter p).map f).prod = ((ys.filter p).map f).prod := by
    apply (hperm.map f).prod_eq'
    rw [List.pairwise_map]
    apply List.pairwise_of_forall_mem_list
    intro x hx y _
    obtain ⟨hx, hpx⟩ := List.mem_filter.1 hx
    exact h x hx hpx (f y)
  rw [prod_map_filter_mul h, prod_map_filter_mul hys, hcentral, hrest]

end Lists
end BlockSparse
