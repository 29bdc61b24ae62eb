import BlockSparse.Block.Vector
import BlockSparse.Proofs.Expr.Outcome
import BlockSparse.Proofs.Offsets

/-! Flattening block vectors. Components are evaluated one after another and copied into a vector
that was made before the first evaluation, each to where the inferred sizes let it start. A
component evaluates to a vector of the inferred length, so every copy fills the place meant for it,
and the vector ends up with the components laid out one behind the other. -/
namespace BlockSparse

namespace BlockVector
variable {α : Type}

/-- A copy of values into a vector, with the place in it that is meant for them. -/
structure Copy (α : Type) where
  into : DenseVector α
  start : Nat
  size : Nat
  values : DenseVector α

/-- The values fill their place, and the place lies inside the vector. -/
structure Copy.InRange (c : Copy α) : Prop where
  fills : c.values.length = c.size
  inside : c.start + c.size ≤ c.into.length

section Sizes
variable {e : Expr α} {index n : Nat} {blocks : BlockVector α} {ns : List Nat}

lemma componentSize_eq_ok_iff :
    componentSize index e = .ok n ↔ e.shape = .ok (some (.vector n)) := by
  rw [componentSize]
  cases e.shape with
  | error err => simp [bind, Except.bind]
  | ok shape =>
    cases shape with
    | none => simp [bind, Except.bind]
    | some shape => cases shape <;> simp [bind, Except.bind, pure, Except.pure]

/-- A block vector has sizes when its components have the shapes of vectors. -/
lemma sizes_eq_ok_iff : sizes blocks = .ok ns ↔
    List.Forall₂ (fun e n => e.shape = .ok (some (.vector n))) blocks ns := by
  -- the components are numbered from the start, so later ones are numbered from there on
  have hfrom : ∀ start, List.Forall₂ (fun p n => componentSize p.2 p.1 = .ok n)
      (blocks.zipIdx start) ns ↔
        List.Forall₂ (fun e n => e.shape = .ok (some (.vector n))) blocks ns := by
    induction blocks generalizing ns with
    | nil =>
      intro start
      rw [List.zipIdx_nil, List.forall₂_nil_left_iff, List.forall₂_nil_left_iff]
    | cons e blocks ih =>
      intro start
      rw [List.zipIdx_cons, List.forall₂_cons_left_iff, List.forall₂_cons_left_iff]
      simp only [ih]
      simp only [componentSize_eq_ok_iff]
  exact Traversal.mapM_eq_ok_iff.trans (hfrom 0)

end Sizes

variable [Zero α] [One α] [Add α] [Mul α] [Neg α] [BEq α] {e : Expr α} {x : DenseVector α}
  {n start : Nat} {flat : DenseVector α} {blocks : BlockVector α} {ns : List Nat}

lemma result_evalComponent (e : Expr α) : (evalComponent e).result =
    e.run.result >>= fun v => match v with
      | .vector x => .ok x
      | v => .error (.unsupported (.component v.kind)) := by
  rw [evalComponent, Logged.result_bind]
  congr 1
  funext v
  cases v <;> rfl

lemma run_of_evalComponent (h : (evalComponent e).result = .ok x) :
    e.run.result = .ok (.vector x) := by
  rw [result_evalComponent] at h
  obtain ⟨v, hv, hx⟩ := Traversal.bind_eq_ok_iff.1 h
  rw [hv]
  cases v with
  | vector y =>
    cases hx
    rfl
  | _ => cases hx

/-- A component evaluates to a vector of the length that was inferred. -/
lemma length_of_evalComponent (hshape : e.shape = .ok (some (.vector n)))
    (h : (evalComponent e).result = .ok x) : x.length = n := by
  have hx := Expr.shape_of_run hshape (run_of_evalComponent h)
  rw [Value.shape?_vector] at hx
  cases hx
  rfl

/-- The copies that are made when components of given sizes are copied into a vector from a place
on. The first component that fails ends them. -/
inductive Copies : Nat → DenseVector α → List (Expr α × Nat) → Copy α → Prop
  | here {start : Nat} {flat x : DenseVector α} {e : Expr α} {size : Nat}
    {rest : List (Expr α × Nat)} (value : (evalComponent e).result = .ok x) :
    Copies start flat ((e, size) :: rest) ⟨flat, start, size, x⟩
  | later {start : Nat} {flat x : DenseVector α} {e : Expr α} {size : Nat}
    {rest : List (Expr α × Nat)} {c : Copy α} (value : (evalComponent e).result = .ok x)
    (next : Copies (start + size) (Offsets.paste flat start x) rest c) :
    Copies start flat ((e, size) :: rest) c

/-- Into a vector that is long enough, every copy is in range. -/
lemma Copies.inRange {c : Copy α}
    (hshapes : List.Forall₂ (fun e n => e.shape = .ok (some (.vector n))) blocks ns)
    (hlong : start + ns.sum ≤ flat.length) (hc : Copies start flat (blocks.zip ns) c) :
    c.InRange := by
  induction hshapes generalizing start flat with
  | nil => cases hc
  | @cons e n blocks ns hshape _ ih =>
    rw [List.sum_cons] at hlong
    cases hc with
    | here value =>
      refine ⟨length_of_evalComponent hshape value, ?_⟩
      change start + n ≤ flat.length
      omega
    | @later _ _ x _ _ _ _ value next =>
      have hlength := length_of_evalComponent hshape value
      refine ih ?_ next
      rw [Offsets.length_paste (by omega)]
      omega

/-- Behind what has been copied already, components are laid out one behind the other. -/
lemma result_copyAll
    (hshapes : List.Forall₂ (fun e n => e.shape = .ok (some (.vector n))) blocks ns)
    (front : DenseVector α) :
    (copyAll front.length (front ++ List.replicate ns.sum 0) (blocks.zip ns)).result =
      (fun xs => front ++ xs.flatten) <$> blocks.mapM fun e => (evalComponent e).result := by
  induction hshapes generalizing front with
  | nil => rfl
  | @cons e n blocks ns hshape _ ih =>
    rw [List.zip_cons_cons, copyAll, Logged.result_bind, List.mapM_cons]
    cases hx : (evalComponent e).result with
    | error err => rfl
    | ok x =>
      have hlength := length_of_evalComponent hshape hx
      have hrest := ih (front ++ x)
      rw [List.length_append, hlength] at hrest
      change (copyAll (front.length + n) _ _).result = _
      rw [Offsets.paste_front, List.sum_cons, List.drop_replicate, hlength, Nat.add_sub_cancel_left,
        hrest]
      cases blocks.mapM fun e => (evalComponent e).result with
      | error err => rfl
      | ok xs => exact congrArg Except.ok (List.append_assoc front x xs.flatten)

lemma sizes_of_forall₂ {xs : List (DenseVector α)}
    (h : List.Forall₂ (fun e x => e.eval = .ok (.vector x)) blocks xs) :
    sizes blocks = .ok (xs.map List.length) :=
  sizes_eq_ok_iff.2 (List.forall₂_map_right_iff.2 (h.imp fun _ _ hx => Expr.shape_of_eval hx))

/-- A block vector is evaluated when all of its components evaluate to vectors. -/
lemma eval_eq_ok_iff {xs : List (DenseVector α)} :
    eval blocks = .ok xs ↔ List.Forall₂ (fun e x => e.eval = .ok (.vector x)) blocks xs := by
  rw [eval_eq, Traversal.bind_eq_ok_iff]
  simp only [sizes_eq_ok_iff, Traversal.mapM_eq_ok_iff]
  constructor
  · rintro ⟨ns, hshapes, hvalues⟩
    induction hshapes generalizing xs with
    | nil =>
      cases hvalues
      exact .nil
    | cons hshape _ ih =>
      cases hvalues with
      | cons hx hrest =>
        exact .cons ((Expr.eval_of_shape hshape).trans (run_of_evalComponent hx)) (ih hrest)
  · intro h
    refine ⟨xs.map List.length, sizes_eq_ok_iff.1 (sizes_of_forall₂ h), h.imp fun e x hx => ?_⟩
    rw [result_evalComponent, ← Expr.eval_of_shape (Expr.shape_of_eval hx), hx]
    rfl

/-- Copying the components one by one gives what evaluating all of them first gives. -/
theorem flatten_eq (blocks : BlockVector α) : flatten blocks = List.flatten <$> eval blocks := by
  rw [flatten, flattenLogged, Logged.result_bind, Logged.result_lift, eval_eq]
  cases hsizes : sizes blocks with
  | error err => rfl
  | ok ns => exact result_copyAll (sizes_eq_ok_iff.1 hsizes) []

/-- Components that evaluate to vectors are laid out one behind the other. -/
lemma flatten_of_forall₂ {xs : List (DenseVector α)}
    (h : List.Forall₂ (fun e x => e.eval = .ok (.vector x)) blocks xs) :
    flatten blocks = .ok xs.flatten := by
  rw [flatten_eq, eval_eq_ok_iff.2 h]
  rfl

end BlockVector
end BlockSparse
