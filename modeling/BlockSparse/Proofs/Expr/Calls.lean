import BlockSparse.Proofs.Expr.Outcome
import BlockSparse.Proofs.Value.Kernel

/-! What evaluation does on its way: the expressions that it gets to, and the kernels that it calls
for them. Once the shape of an expression is known, the shapes of all expressions on the way are,
and every kernel is called on operands for which it is made. -/
namespace BlockSparse
variable {α : Type}

/-- The log of a computation names those of the given kernels that are noted, and nothing else. -/
def Logged.Notes {β : Type} (x : Logged α β) (C : Kernel α → Prop) : Prop :=
  ∀ ev, ev ∈ x.log ↔ ∃ k, C k ∧ k.event? = some ev

namespace Logged.Notes
variable {β γ : Type} {x : Logged α β} {C D : Kernel α → Prop}

lemma of_nil (h : x.log = []) (hC : ∀ k, ¬ C k) : x.Notes C := by
  intro ev
  simp [h, hC]

lemma congr (h : x.Notes C) (hCD : ∀ k, D k ↔ C k) : x.Notes D := by
  intro ev
  simp [h ev, hCD]

/-- The kernels of a sequence are those of the first computation and, if that succeeds, those of
the second. -/
lemma bind {f : β → Logged α γ} {D : β → Kernel α → Prop} (hx : x.Notes C)
    (hf : ∀ b, x.result = .ok b → (f b).Notes (D b)) :
    (x >>= f).Notes fun k => C k ∨ ∃ b, x.result = .ok b ∧ D b k := by
  intro ev
  rw [log_bind, List.mem_append, hx ev]
  cases hr : x.result with
  | error e => simp
  | ok b =>
    rw [hf b hr ev]
    simp [or_and_right, exists_or]

lemma of_behind [Zero α] [One α] [Add α] [Mul α] {k? : Option (Kernel α)}
    {x : Logged α (Value α)} (h : Kernel.Behind k? x) : x.Notes fun k => k? = some k := by
  intro ev
  rw [h.log, Option.mem_toList, Option.bind_eq_some_iff]

end Logged.Notes

namespace Expr
variable [Zero α] [One α] [Add α] [Mul α] [Neg α] [BEq α]
variable {e f g : Expr α} {chain : List (Expr α)} {op : SumOp} {k : Kernel α} {s : Option Shape}
variable {u v : Value α}

/-- The expressions that the evaluation of an expression gets to. What follows the first operand of
a chain is evaluated as a product of its own. -/
inductive Reaches : Expr α → Expr α → Prop
  | refl (e : Expr α) : Reaches e e
  | left {op : SumOp} {e f g : Expr α} (h : Reaches e g) : Reaches (.sum op e f) g
  | right {op : SumOp} {e f g : Expr α} {u : Value α} (he : (run e).result = .ok u)
    (h : Reaches f g) : Reaches (.sum op e f) g
  | transpose {e g : Expr α} (h : Reaches e g) : Reaches (.transpose e) g
  | head {e g : Expr α} {chain : List (Expr α)} (h : Reaches e g) :
    Reaches (.product (e :: chain)) g
  | tail {e f g : Expr α} {chain : List (Expr α)} {u : Value α} (he : (run e).result = .ok u)
    (h : Reaches (.product (f :: chain)) g) : Reaches (.product (e :: f :: chain)) g

/-- The kernel that an expression needs itself, once its operands are evaluated. -/
inductive Applies : Expr α → Kernel α → Prop
  | sum {op : SumOp} {e f : Expr α} {u v : Value α} {k : Kernel α} (he : (run e).result = .ok u)
    (hf : (run f).result = .ok v) (hk : Value.addKernel? op u v = some k) :
    Applies (.sum op e f) k
  | transpose {e : Expr α} {u : Value α} {k : Kernel α} (he : (run e).result = .ok u)
    (hk : u.transposeKernel? = some k) : Applies (.transpose e) k
  | product {e f : Expr α} {chain : List (Expr α)} {u v : Value α} {k : Kernel α}
    (he : (run e).result = .ok u) (hrest : (runChain (f :: chain)).result = .ok v)
    (hk : Value.mulKernel? u v = some k) : Applies (.product (e :: f :: chain)) k

/-- The kernels that are called while an expression is evaluated. -/
def Calls (e : Expr α) (k : Kernel α) : Prop := ∃ f, Reaches e f ∧ Applies f k

/-- An expression that has a shape is evaluated through expressions that have one. -/
lemma shape_of_reaches (h : Reaches e g) (hs : e.shape = .ok s) : ∃ t, g.shape = .ok t := by
  induction h generalizing s with
  | refl e => exact ⟨s, hs⟩
  | left _ ih =>
    obtain ⟨t, _, ht, _⟩ := exists_of_shape_sum hs
    exact ih ht
  | right _ _ ih =>
    obtain ⟨_, t, _, ht, _⟩ := exists_of_shape_sum hs
    exact ih ht
  | transpose _ ih =>
    obtain ⟨t, ht, _⟩ := exists_of_shape_transpose hs
    exact ih ht
  | @head e g chain _ ih =>
    cases chain with
    | nil => exact ih hs
    | cons f chain =>
      obtain ⟨t, _, ht, _⟩ := exists_of_chainShape_cons hs
      exact ih ht
  | tail _ _ ih =>
    obtain ⟨_, t, _, ht, _⟩ := exists_of_chainShape_cons hs
    exact ih ht

/-- The operands of an expression that has a shape fit to the kernel that it needs. -/
lemma fits_of_applies (h : Applies g k) (hs : g.shape = .ok s) : k.Fits := by
  cases h with
  | sum he hf hk =>
    obtain ⟨t, u, ht, hu, hsum⟩ := exists_of_shape_sum hs
    rw [← shape_of_run ht he, ← shape_of_run hu hf] at hsum
    exact Value.fits_of_addKernel hk hsum
  | transpose he hk => exact Value.fits_of_transposeKernel hk
  | product he hrest hk =>
    obtain ⟨t, u, ht, hu, hprod⟩ := exists_of_chainShape_cons hs
    have hv := shape_of_run (e := .product _) hu hrest
    rw [← shape_of_run ht he, ← hv] at hprod
    exact Value.fits_of_mulKernel hk hprod

lemma result_of_applies (h : Applies g k) : (run g).result = k.run := by
  cases h with
  | @sum op e f u v k he hf hk =>
    rw [result_run_sum, he, hf]
    exact (Value.behind_add op u v).result k hk
  | @transpose e u k he hk =>
    rw [result_run_transpose, he]
    exact (Value.behind_transpose u).result k hk
  | @product e f chain u v k he hrest hk =>
    rw [run, result_runChain_cons, he, hrest]
    exact (Value.behind_mul u v).result k hk

section Recursion

lemma calls_sum_iff : (sum op e f).Calls k ↔ e.Calls k ∨ ∃ u, (run e).result = .ok u ∧
    (f.Calls k ∨ ∃ v, (run f).result = .ok v ∧ Value.addKernel? op u v = some k) := by
  constructor
  · rintro ⟨g, hg, hk⟩
    cases hg with
    | refl =>
      cases hk with
      | sum he hf hk => exact .inr ⟨_, he, .inr ⟨_, hf, hk⟩⟩
    | left hg => exact .inl ⟨g, hg, hk⟩
    | right he hg => exact .inr ⟨_, he, .inl ⟨g, hg, hk⟩⟩
  · rintro (⟨g, hg, hk⟩ | ⟨u, he, ⟨g, hg, hk⟩ | ⟨v, hf, hk⟩⟩)
    · exact ⟨g, .left hg, hk⟩
    · exact ⟨g, .right he hg, hk⟩
    · exact ⟨_, .refl _, .sum he hf hk⟩

lemma calls_transpose_iff : (transpose e).Calls k ↔
    e.Calls k ∨ ∃ u, (run e).result = .ok u ∧ u.transposeKernel? = some k := by
  constructor
  · rintro ⟨g, hg, hk⟩
    cases hg with
    | refl =>
      cases hk with
      | transpose he hk => exact .inr ⟨_, he, hk⟩
    | transpose hg => exact .inl ⟨g, hg, hk⟩
  · rintro (⟨g, hg, hk⟩ | ⟨u, he, hk⟩)
    · exact ⟨g, .transpose hg, hk⟩
    · exact ⟨_, .refl _, .transpose he hk⟩

lemma calls_product_singleton_iff : (product [e]).Calls k ↔ e.Calls k := by
  constructor
  · rintro ⟨g, hg, hk⟩
    cases hg with
    | refl => cases hk
    | head hg => exact ⟨g, hg, hk⟩
  · rintro ⟨g, hg, hk⟩
    exact ⟨g, .head hg, hk⟩

lemma calls_product_cons_iff : (product (e :: f :: chain)).Calls k ↔ e.Calls k ∨
    ∃ u, (run e).result = .ok u ∧ ((product (f :: chain)).Calls k ∨
      ∃ v, (runChain (f :: chain)).result = .ok v ∧ Value.mulKernel? u v = some k) := by
  constructor
  · rintro ⟨g, hg, hk⟩
    cases hg with
    | refl =>
      cases hk with
      | product he hrest hk => exact .inr ⟨_, he, .inr ⟨_, hrest, hk⟩⟩
    | head hg => exact .inl ⟨g, hg, hk⟩
    | tail he hg => exact .inr ⟨_, he, .inl ⟨g, hg, hk⟩⟩
  · rintro (⟨g, hg, hk⟩ | ⟨u, he, ⟨g, hg, hk⟩ | ⟨v, hrest, hk⟩⟩)
    · exact ⟨g, .head hg, hk⟩
    · exact ⟨g, .tail he hg, hk⟩
    · exact ⟨_, .refl _, .product he hrest hk⟩

end Recursion

lemma notes_runChain (ih : ∀ e ∈ chain, (run e).Notes e.Calls) :
    (runChain chain).Notes (product chain).Calls := by
  induction chain with
  | nil => exact .of_nil rfl (by rintro k ⟨g, ⟨⟩, ⟨⟩⟩)
  | cons e chain ihc =>
    have he := ih e List.mem_cons_self
    cases chain with
    | nil => exact he.congr fun k => calls_product_singleton_iff
    | cons f chain =>
      have hrest := ihc fun g hg => ih g (List.mem_cons_of_mem e hg)
      have h := he.bind fun u _ => hrest.bind fun v _ => .of_behind (Value.behind_mul u v)
      rw [runChain]
      exact h.congr fun k => calls_product_cons_iff

/-- What is noted during an evaluation are the kernels that it calls, so far as they are noted. -/
theorem notes_run (e : Expr α) : (run e).Notes e.Calls := by
  induction e with
  | scalar s => exact .of_nil rfl (by rintro k ⟨g, ⟨⟩, ⟨⟩⟩)
  | matrix a => exact .of_nil rfl (by rintro k ⟨g, ⟨⟩, ⟨⟩⟩)
  | vector x => exact .of_nil rfl (by rintro k ⟨g, ⟨⟩, ⟨⟩⟩)
  | product chain ih => exact notes_runChain ih
  | sum op e f ihe ihf =>
    have h := ihe.bind fun u _ => ihf.bind fun v _ => .of_behind (Value.behind_add op u v)
    rw [run]
    exact h.congr fun k => calls_sum_iff
  | transpose e ih =>
    have h := ih.bind fun u _ => .of_behind (Value.behind_transpose u)
    rw [run]
    exact h.congr fun k => calls_transpose_iff
  | operator op =>
    refine .of_nil ?_ (by rintro k ⟨g, ⟨⟩, ⟨⟩⟩)
    rw [run]
    cases op.matrix? <;> rfl
  | blockMatrix grid => exact .of_nil rfl (by rintro k ⟨g, ⟨⟩, ⟨⟩⟩)
  | blockVector blocks => exact .of_nil rfl (by rintro k ⟨g, ⟨⟩, ⟨⟩⟩)

end Expr
end BlockSparse
