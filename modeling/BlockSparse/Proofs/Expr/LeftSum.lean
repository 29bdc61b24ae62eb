import BlockSparse.Proofs.Expr.Yield
import BlockSparse.Proofs.Sparse.Equations

/-! Sums of many matrices. A sum of expressions that is bracketed from the left adds one operand
after the other, so it comes to the sum of all the values, stored wherever one of the operands
stores something. -/
namespace BlockSparse
open Finset
variable {α : Type}

namespace SparseMatrix
variable {m : Nat} {d : Nat → SparseMatrix α} {a b c c' : SparseMatrix α}

/-- The product of two matrices of which one has as many columns as the other has rows. -/
def times [Zero α] [One α] [Add α] [Mul α] (a b : SparseMatrix α) : SparseMatrix α :=
  ⟨b.ncols, a.rows.map (productRow b)⟩

lemma product_eq_times [Zero α] [One α] [Add α] [Mul α] (h : a.ncols = b.nrows) :
    a.product b = .ok (a.times b) := product_of_ncols_eq h

/-- The sum of the first matrices of a sequence, stored wherever one of them stores something. -/
structure IsSum [CommRing α] (m : Nat) (d : Nat → SparseMatrix α) (c : SparseMatrix α) : Prop where
  wellFormed : c.WellFormed
  value : ∀ p q, c.value p q = ∑ k ∈ range m, (d k).value p q
  stored : ∀ p q, q ∈ c.rowPattern p ↔ ∃ k < m, q ∈ (d k).rowPattern p

variable [CommRing α]

lemma isSum_one (h : (d 0).WellFormed) : IsSum 1 d (d 0) where
  wellFormed := h
  value := by simp
  stored := by simp

/-- Adding the next matrix extends the sum by one term. -/
lemma IsSum.succ (h : IsSum m d c) (hd : (d m).WellFormed) (hc : c.axpy 1 (d m) = .ok c') :
    IsSum (m + 1) d c' where
  wellFormed := wellFormed_axpy h.wellFormed hd hc
  value := by
    intro p q
    rw [value_axpy hc, h.value, one_mul, sum_range_succ]
  stored := by
    intro p q
    rw [← mem_positions_iff, positions_axpy hc, Set.mem_union, mem_positions_iff,
      mem_positions_iff, h.stored]
    constructor
    · rintro (⟨k, hk, hq⟩ | hq)
      · exact ⟨k, Nat.lt_succ_of_lt hk, hq⟩
      · exact ⟨m, Nat.lt_succ_self m, hq⟩
    · rintro ⟨k, hk, hq⟩
      rcases Nat.lt_succ_iff_lt_or_eq.1 hk with hk | rfl
      · exact .inl ⟨k, hk, hq⟩
      · exact .inr hq

end SparseMatrix

namespace Expr

/-- The sum of expressions, bracketed from the left. -/
def leftSum [Zero α] : List (Expr α) → Expr α
  | [] => zero
  | e :: es => es.foldl (.sum .add) e

lemma leftSum_concat [Zero α] {es : List (Expr α)} (h : es ≠ []) (e : Expr α) :
    leftSum (es ++ [e]) = .sum .add (leftSum es) e := by
  cases es with
  | nil => exact absurd rfl h
  | cons f es => exact List.foldl_append

variable [CommRing α] [BEq α] {e f : Expr α} {a b c : SparseMatrix α}

lemma eval_sum_matrix (he : e.eval = .ok (.matrix a)) (hf : f.eval = .ok (.matrix b))
    (hc : a.axpy 1 b = .ok c) : (sum .add e f).eval = .ok (.matrix c) := by
  rw [eval_eq_ok_iff, result_run_sum, eval_eq_ok_iff.1 he, eval_eq_ok_iff.1 hf]
  exact Value.add_of_summed (.matrices hc)

lemma eval_product_matrix (he : e.eval = .ok (.matrix a)) (hf : f.eval = .ok (.matrix b))
    (hc : a.product b = .ok c) : (product [e, f]).eval = .ok (.matrix c) :=
  eval_product_pair he hf (Value.mul_of_multiplied (.matrices hc))

/-- A sum of matrices of one shape evaluates to a matrix of that shape, which is their sum. -/
theorem eval_leftSum {s : Shape} {d : Nat → SparseMatrix α} {es : List (Expr α)} (hne : es ≠ [])
    (hes : ∀ k e, es[k]? = some e →
      e.eval = .ok (.matrix (d k)) ∧ (d k).WellFormed ∧ (d k).shape = s) :
    ∃ c, (leftSum es).eval = .ok (.matrix c) ∧ c.shape = s ∧ SparseMatrix.IsSum es.length d c := by
  induction es using List.reverseRecOn with
  | nil => exact absurd rfl hne
  | append_singleton es e ih =>
    obtain ⟨he, hwf, hshape⟩ := hes es.length e (by simp)
    by_cases hnil : es = []
    · subst hnil
      exact ⟨d 0, he, hshape, SparseMatrix.isSum_one hwf⟩
    · have hinit : ∀ k f, es[k]? = some f →
          f.eval = .ok (.matrix (d k)) ∧ (d k).WellFormed ∧ (d k).shape = s := by
        intro k f hf
        have hk : k < es.length := (List.getElem?_eq_some_iff.1 hf).1
        exact hes k f (by rw [List.getElem?_append_left hk, hf])
      obtain ⟨c, hc, hcs, hsum⟩ := ih hnil hinit
      obtain ⟨c', hc', hcs'⟩ := SparseMatrix.axpy_outcome (hcs.trans hshape.symm) 1
      rw [leftSum_concat hnil, List.length_append]
      exact ⟨c', eval_sum_matrix hc he hc', hcs'.trans hcs, hsum.succ hwf hc'⟩

end Expr

end BlockSparse
