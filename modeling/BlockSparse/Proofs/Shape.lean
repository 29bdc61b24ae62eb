import BlockSparse.Proofs.PartialMonoid
import BlockSparse.Proofs.Traversal
import BlockSparse.Shape.Arithmetic

/-! Shapes of products are associative where they are defined, so the shapes form a partial monoid
in which the unit is the shape of a scalar. What is made without vectors has not the shape of one,
and where no vector stands transposing twice gives a shape back. -/
namespace BlockSparse.Shape

/-- One way to bracket a product of shapes fits together exactly when the other one does. -/
theorem product_assoc (s t u : Option Shape) :
    ((product s t).toOption >>= fun x => (product x u).toOption) =
      (product t u).toOption >>= fun x => (product s x).toOption := by
  cases s with
  | none =>
    rw [product_none_left]
    change (product t u).toOption = _
    cases product t u <;> rfl
  | some s =>
    cases t with
    | none =>
      rw [product_none_right, product_none_left]
      rfl
    | some t =>
      cases u with
      | none =>
        simp only [product_none_right]
        change _ = (product (some s) (some t)).toOption
        cases product (some s) (some t) <;> rfl
      | some u =>
        cases s with
        | vector n =>
          cases t with
          | vector m => cases u <;> rfl
          | matrix k l =>
            cases u with
            | vector m => by_cases h : l = m <;> simp [product, Except.toOption, h]
            | matrix k' l' => by_cases h : l = k' <;> simp [product, Except.toOption, h]
        | matrix m k =>
          cases t with
          | vector n =>
            by_cases h : k = n <;> cases u <;> simp [product, Except.toOption, h]
          | matrix k' l =>
            cases u with
            | vector n =>
              by_cases h : k = k' <;> by_cases h' : l = n <;>
                simp [product, Except.toOption, h, h']
            | matrix l' n =>
              by_cases h : k = k' <;> by_cases h' : l = l' <;>
                simp [product, Except.toOption, h, h']

lemma exists_product_iff {s t u r : Option Shape} :
    (∃ x, product s t = .ok x ∧ product x u = .ok r) ↔
      ∃ x, product t u = .ok x ∧ product s x = .ok r := by
  have h := product_assoc s t u
  rw [← Traversal.toOption_bind, ← Traversal.toOption_bind] at h
  rw [← Traversal.bind_eq_ok_iff, ← Traversal.bind_eq_ok_iff, ← Traversal.toOption_eq_some_iff,
    ← Traversal.toOption_eq_some_iff, h]

instance : PartialMonoid (Option Shape) where
  one := none
  mul? s t := (product s t).toOption
  one_mul? _ := rfl
  mul?_one s := by
    rw [product_none_right]
    rfl
  mul?_assoc := product_assoc

section NoVector

/-- The shape of a scalar or of a matrix. -/
def NoVector (s : Option Shape) : Prop := ∀ n, s ≠ some (.vector n)

variable {s t r : Option Shape}

lemma noVector_product (h : product s t = .ok r) (hs : NoVector s) (ht : NoVector t) :
    NoVector r := by
  rcases s with _ | (n | ⟨m, k⟩)
  · cases h
    exact ht
  · exact absurd rfl (hs n)
  · rcases t with _ | (n | ⟨k', n⟩)
    · cases h
      exact hs
    · exact absurd rfl (ht n)
    · rw [product] at h
      split at h
      · cases h
        exact nofun
      · cases h

lemma noVector_sum {o : Operation} (h : sum o s t = .ok r) (hs : NoVector s) (ht : NoVector t) :
    NoVector r := by
  cases s with
  | none =>
    cases h
    exact ht
  | some s =>
    cases t with
    | none =>
      cases h
      exact hs
    | some t =>
      rw [sum] at h
      split at h
      · cases h
        exact hs
      · cases h

lemma noVector_transpose (h : transpose s = .ok r) : NoVector r := by
  rcases s with _ | (n | ⟨m, k⟩)
  · cases h
    exact nofun
  · cases h
  · cases h
    exact nofun

/-- Without vectors, transposing twice gives the shape back. -/
lemma transpose_transpose (h : NoVector s) : transpose s >>= transpose = .ok s := by
  rcases s with _ | (n | ⟨m, k⟩)
  · rfl
  · exact absurd rfl (h n)
  · rfl

end NoVector

end BlockSparse.Shape
