import BlockSparse.Error
import Mathlib.Data.List.Forall2

/-! Computations that may fail, carried out along a list. Such a traversal succeeds when each step
does, and otherwise it stops with the first failure. -/
namespace BlockSparse

/-- Along a list, what a relation yields at the first element at which it yields anything. -/
inductive First {β γ : Type} (R : β → γ → Prop) : List β → γ → Prop
  | here {x : β} {xs : List β} {c : γ} (found : R x c) : First R (x :: xs) c
  | later {x : β} {xs : List β} {c : γ} (none : ∀ d, ¬ R x d) (rest : First R xs c) :
    First R (x :: xs) c

namespace First
variable {β γ : Type} {R : β → γ → Prop}

lemma mem {xs : List β} {c : γ} (h : First R xs c) : ∃ x ∈ xs, R x c := by
  induction h with
  | here found => exact ⟨_, List.mem_cons_self .., found⟩
  | later _ _ ih =>
    obtain ⟨x, hx, hc⟩ := ih
    exact ⟨x, List.mem_cons_of_mem _ hx, hc⟩

lemma append_left {xs : List β} {c : γ} (h : First R xs c) (ys : List β) :
    First R (xs ++ ys) c := by
  induction h with
  | here found => exact .here found
  | later none _ ih => exact .later none ih

lemma append_right {xs ys : List β} {c : γ} (hx : ∀ x ∈ xs, ∀ d, ¬ R x d) (h : First R ys c) :
    First R (xs ++ ys) c := by
  induction xs with
  | nil => exact h
  | cons x xs ih =>
    exact .later (hx x (List.mem_cons_self ..)) (ih fun y hy => hx y (List.mem_cons_of_mem _ hy))

lemma congr {S : β → γ → Prop} {xs : List β} {c : γ} (h : ∀ x ∈ xs, ∀ d, R x d ↔ S x d) :
    First R xs c ↔ First S xs c := by
  induction xs with
  | nil => constructor <;> intro h <;> cases h
  | cons x xs ih =>
    have hx := h x List.mem_cons_self
    have hxs := ih fun y hy => h y (List.mem_cons_of_mem x hy)
    constructor
    · intro hc
      cases hc with
      | here found => exact .here ((hx c).1 found)
      | later none rest => exact .later (fun d hd => none d ((hx d).2 hd)) (hxs.1 rest)
    · intro hc
      cases hc with
      | here found => exact .here ((hx c).2 found)
      | later none rest => exact .later (fun d hd => none d ((hx d).1 hd)) (hxs.2 rest)

lemma map_iff {δ : Type} {f : δ → β} {xs : List δ} {c : γ} :
    First R (xs.map f) c ↔ First (fun x => R (f x)) xs c := by
  induction xs with
  | nil => constructor <;> intro h <;> cases h
  | cons x xs ih =>
    constructor
    · intro h
      cases h with
      | here found => exact .here found
      | later none rest => exact .later none (ih.1 rest)
    · intro h
      cases h with
      | here found => exact .here found
      | later none rest => exact .later none (ih.2 rest)

lemma of_getElem? {xs : List β} {i : Nat} {x : β} {c : γ} (hi : xs[i]? = some x) (hx : R x c)
    (hbefore : ∀ k < i, ∀ y, xs[k]? = some y → ∀ d, ¬ R y d) : First R xs c := by
  induction xs generalizing i with
  | nil => cases hi
  | cons y ys ih =>
    cases i with
    | zero =>
      cases hi
      exact .here hx
    | succ i =>
      refine .later (hbefore 0 (Nat.succ_pos i) y rfl) (ih hi fun k hk => ?_)
      exact hbefore (k + 1) (Nat.succ_lt_succ hk)

/-- If the relation yields one thing at each element, there is one first thing. -/
lemma unique (hR : ∀ x c d, R x c → R x d → c = d) {xs : List β} {c d : γ}
    (hc : First R xs c) (hd : First R xs d) : c = d := by
  induction hc with
  | here found =>
    cases hd with
    | here found' => exact hR _ _ _ found found'
    | later none _ => exact absurd found (none _)
  | later none _ ih =>
    cases hd with
    | here found' => exact absurd found' (none _)
    | later _ rest => exact ih rest

end First

/-- Two computations that give related results, or fail for the same reason. -/
inductive Agree {β γ : Type} (R : β → γ → Prop) : Except Error β → Except Error γ → Prop
  | ok {b : β} {c : γ} (h : R b c) : Agree R (.ok b) (.ok c)
  | error (e : Error) : Agree R (.error e) (.error e)

namespace Agree
variable {β γ β' γ' : Type} {R : β → γ → Prop} {S : β' → γ' → Prop}

lemma bind {x : Except Error β} {y : Except Error γ} {f : β → Except Error β'}
    {g : γ → Except Error γ'} (h : Agree R x y) (hfg : ∀ b c, R b c → Agree S (f b) (g c)) :
    Agree S (x >>= f) (y >>= g) := by
  cases h with
  | ok h => exact hfg _ _ h
  | error e => exact .error e

lemma map {x : Except Error β} {y : Except Error γ} {f : β → β'} {g : γ → γ'} (h : Agree R x y)
    (hfg : ∀ b c, R b c → S (f b) (g c)) : Agree S (f <$> x) (g <$> y) := by
  cases h with
  | ok h => exact .ok (hfg _ _ h)
  | error e => exact .error e

end Agree

namespace Traversal
variable {ε β γ δ : Type}

lemma bind_eq_ok_iff {x : Except ε β} {f : β → Except ε γ} {c : γ} :
    (x >>= f) = .ok c ↔ ∃ b, x = .ok b ∧ f b = .ok c := by
  cases x with
  | error e => simp [bind, Except.bind]
  | ok b => simp [bind, Except.bind]

lemma bind_eq_error_iff {x : Except Error β} {f : β → Except Error γ} {e : Error} :
    (x >>= f) = .error e ↔ x = .error e ∨ ∃ b, x = .ok b ∧ f b = .error e := by
  cases x with
  | error e => simp [bind, Except.bind]
  | ok b => simp [bind, Except.bind]

lemma map_eq_ok_iff {x : Except ε β} {f : β → γ} {c : γ} :
    f <$> x = .ok c ↔ ∃ b, x = .ok b ∧ f b = c := by
  cases x with
  | error e => simp [Functor.map, Except.map]
  | ok b => simp [Functor.map, Except.map]

lemma mapError_eq_ok_iff {x : Except Error β} {f : Error → Error} {b : β} :
    x.mapError f = .ok b ↔ x = .ok b := by
  cases x <;> simp [Except.mapError]

lemma toOption_eq_some_iff {x : Except Error β} {b : β} : x.toOption = some b ↔ x = .ok b := by
  cases x <;> simp [Except.toOption]

lemma toOption_bind (x : Except Error β) (f : β → Except Error γ) :
    (x >>= f).toOption = x.toOption >>= fun b => (f b).toOption := by
  cases x <;> rfl

/-- A traversal succeeds exactly when each of its steps does. -/
theorem mapM_eq_ok_iff {f : β → Except ε γ} {xs : List β} {ys : List γ} :
    xs.mapM f = .ok ys ↔ List.Forall₂ (fun x y => f x = .ok y) xs ys := by
  induction xs generalizing ys with
  | nil => cases ys <;> simp [pure, Except.pure]
  | cons x xs ih =>
    simp only [List.mapM_cons, bind_eq_ok_iff, ih]
    constructor
    · rintro ⟨y, hy, zs, hzs, hc⟩
      cases hc
      exact .cons hy hzs
    · intro h
      cases h with
      | cons hy hzs => exact ⟨_, hy, _, hzs, rfl⟩

/-- Likewise when a step that fails does not say why. -/
lemma mapM_eq_some_iff {f : β → Option γ} {xs : List β} {ys : List γ} :
    xs.mapM f = some ys ↔ List.Forall₂ (fun x y => f x = some y) xs ys := by
  induction xs generalizing ys with
  | nil => cases ys <;> simp
  | cons x xs ih =>
    simp only [List.mapM_cons, Option.bind_eq_bind, Option.bind_eq_some_iff, ih]
    constructor
    · rintro ⟨y, hy, zs, hzs, hc⟩
      cases hc
      exact .cons hy hzs
    · intro h
      cases h with
      | cons hy hzs => exact ⟨_, hy, _, hzs, rfl⟩

lemma exists_getElem?_of_forall₂ {R : β → γ → Prop} {xs : List β} {ys : List γ}
    (h : List.Forall₂ R xs ys) {k : Nat} {x : β} (hx : xs[k]? = some x) :
    ∃ y, ys[k]? = some y ∧ R x y := by
  obtain ⟨hk, rfl⟩ := List.getElem?_eq_some_iff.1 hx
  have hk' : k < ys.length := h.length_eq ▸ hk
  exact ⟨ys[k], List.getElem?_eq_getElem hk', h.get hk hk'⟩

lemma exists_of_forall₂ {R : β → γ → Prop} {xs : List β} {ys : List γ} (h : List.Forall₂ R xs ys)
    {x : β} (hx : x ∈ xs) : ∃ y ∈ ys, R x y := by
  obtain ⟨k, hk⟩ := List.mem_iff_getElem?.1 hx
  obtain ⟨y, hy, hR⟩ := exists_getElem?_of_forall₂ h hk
  exact ⟨y, List.mem_of_getElem? hy, hR⟩

lemma exists_of_mapM_eq_ok {f : β → Except Error γ} {xs : List β} {ys : List γ}
    (h : xs.mapM f = .ok ys) {x : β} (hx : x ∈ xs) : ∃ y ∈ ys, f x = .ok y :=
  exists_of_forall₂ (mapM_eq_ok_iff.1 h) hx

/-- Place by place, a traversal gives what its steps give. -/
lemma getElem?_of_mapM_eq_ok {f : β → Except Error γ} {xs : List β} {ys : List γ}
    (h : xs.mapM f = .ok ys) (k : Nat) : xs[k]?.map f = ys[k]?.map .ok := by
  rw [mapM_eq_ok_iff] at h
  induction h generalizing k with
  | nil => rfl
  | cons hxy _ ih =>
    cases k with
    | zero => exact congrArg some hxy
    | succ k => exact ih k

/-- A traversal fails exactly with the first failure among its steps. -/
theorem mapM_eq_error_iff {f : β → Except Error γ} {xs : List β} {e : Error} :
    xs.mapM f = .error e ↔ First (fun x e => f x = .error e) xs e := by
  induction xs with
  | nil =>
    constructor
    · intro h
      cases h
    · intro h
      cases h
  | cons x xs ih =>
    rw [List.mapM_cons, bind_eq_error_iff]
    constructor
    · rintro (h | ⟨y, hy, h⟩)
      · exact .here h
      · rw [bind_eq_error_iff, ih] at h
        obtain h | ⟨_, _, h⟩ := h
        · exact .later (fun d hd => by rw [hy] at hd; cases hd) h
        · cases h
    · intro h
      cases h with
      | here found => exact .inl found
      | later none rest =>
        cases hx : f x with
        | error d => exact absurd hx (none d)
        | ok y => exact .inr ⟨y, rfl, bind_eq_error_iff.2 (.inl (ih.2 rest))⟩

lemma mapM_eq_ok_of_forall {f : β → Except Error γ} {g : β → γ} {xs : List β}
    (h : ∀ x ∈ xs, f x = .ok (g x)) : xs.mapM f = .ok (xs.map g) := by
  rw [mapM_eq_ok_iff, List.forall₂_map_right_iff, List.forall₂_same]
  exact h

end Traversal
end BlockSparse
