import BlockSparse.Block.Nested
import Mathlib.Data.List.Basic

/-! What operations leave alone. From one storage to a later one, every vector is still held and is
as long as before; all values are kept but those of the vectors that were written. New vectors are
none of those held before. Computations that may fail are put together of parts that leave all
vectors alone and a last one that may write. -/
namespace BlockSparse

namespace Store
variable {α ε β γ : Type} {s t u : Store α} {v w : SharedVector} {written : List SharedVector}

/-- Every vector is still held and as long as before, and has the same values unless it is among
those written. -/
structure KeptBut (written : List SharedVector) (s t : Store α) : Prop where
  holds : ∀ {v}, s.Holds v → t.Holds v
  length : ∀ {v}, s.Holds v → t.length v = s.length v
  read : ∀ {v}, s.Holds v → v ∉ written → t.read v = s.read v

namespace KeptBut

lemma refl (written : List SharedVector) (s : Store α) : KeptBut written s s :=
  ⟨id, fun _ => rfl, fun _ _ => rfl⟩

lemma trans (hst : KeptBut written s t) (htu : KeptBut written t u) : KeptBut written s u where
  holds hv := htu.holds (hst.holds hv)
  length hv := (htu.length (hst.holds hv)).trans (hst.length hv)
  read hv hw := (htu.read (hst.holds hv) hw).trans (hst.read hv hw)

lemma mono {more : List SharedVector} (h : KeptBut written s t) (hsub : written ⊆ more) :
    KeptBut more s t :=
  ⟨h.holds, h.length, fun hv hw => h.read hv fun hmem => hw (hsub hmem)⟩

lemma alloc (s : Store α) (values : List α) : KeptBut [] s (s.alloc values).1 where
  holds hv := by
    simp only [Holds, Store.alloc, List.length_append] at *
    omega
  length hv := congrArg List.length (read_alloc_of_holds hv values)
  read hv _ := read_alloc_of_holds hv values

/-- Values that are as many as before may be written. -/
lemma write {values : List α} (h : values.length = s.length v) :
    KeptBut [v] s (s.write v values) where
  holds hw := by simpa [Holds, Store.write] using hw
  length {w} hw := by
    by_cases hvw : v = w
    · subst hvw
      rw [Store.length, read_write_self hw, h]
    · rw [Store.length, read_write_of_ne s hvw, Store.length]
  read hw hne := read_write_of_ne s (fun h => hne (List.mem_singleton.2 h.symm)) _

lemma setEntry (s : Store α) (v : SharedVector) (i : Nat) (x : α) :
    KeptBut [v] s (s.setEntry v i x) := write (by rw [List.length_set, Store.length])

lemma setEntries (s : Store α) (v : SharedVector) (entries : List (Nat × α)) :
    KeptBut [v] s (s.setEntries v entries) := by
  induction entries generalizing s with
  | nil => exact refl _ s
  | cons e entries ih => exact (setEntry s v e.1 e.2).trans (ih _)

lemma fill (s : Store α) (v : SharedVector) (x : α) : KeptBut [v] s (s.fill v x) :=
  write (by rw [List.length_replicate])

/-- Pieces that are as long as the vectors into which they are written may all be written. -/
lemma writeAll {pieces : List (SharedVector × List α)}
    (h : ∀ p ∈ pieces, s.Holds p.1 ∧ p.2.length = s.length p.1) :
    KeptBut (pieces.map Prod.fst) s (s.writeAll pieces) := by
  induction pieces generalizing s with
  | nil => exact refl _ s
  | cons p pieces ih =>
    have hfirst : KeptBut [p.1] s (s.write p.1 p.2) := write (h p List.mem_cons_self).2
    have hrest : ∀ q ∈ pieces, (s.write p.1 p.2).Holds q.1 ∧
        q.2.length = (s.write p.1 p.2).length q.1 := by
      intro q hq
      obtain ⟨hheld, hlen⟩ := h q (List.mem_cons_of_mem p hq)
      exact ⟨hfirst.holds hheld, hlen.trans (hfirst.length hheld).symm⟩
    refine trans (hfirst.mono ?_) ((ih hrest).mono ?_)
    · exact List.cons_subset_cons _ (List.nil_subset _)
    · exact List.subset_cons_self _ _

end KeptBut

/-- Vectors that are taken over where an origin is given. Where none is given they are new: not held
before, and each another one. -/
inductive Stem (s t : Store α) : List (Option SharedVector) → List SharedVector → Prop
  | nil : Stem s t [] []
  | shared {v : SharedVector} {origins : List (Option SharedVector)} {vs : List SharedVector}
    (rest : Stem s t origins vs) : Stem s t (some v :: origins) (v :: vs)
  | fresh {v : SharedVector} {origins : List (Option SharedVector)} {vs : List SharedVector}
    (new : ¬ s.Holds v) (held : t.Holds v) (other : v ∉ vs) (rest : Stem s t origins vs) :
    Stem s t (none :: origins) (v :: vs)

namespace Stem
variable {origins : List (Option SharedVector)} {vs : List SharedVector}

lemma of_shared (s t : Store α) (vs : List SharedVector) : Stem s t (vs.map some) vs := by
  induction vs with
  | nil => exact .nil
  | cons v vs ih => exact .shared ih

lemma alloc (s : Store α) (values : List α) :
    Stem s (s.alloc values).1 [none] [(s.alloc values).2] :=
  .fresh (Nat.lt_irrefl _) (by simp [Holds, Store.alloc]) (List.not_mem_nil) .nil

lemma mem_cases (h : Stem s t origins vs) (hv : v ∈ vs) : some v ∈ origins ∨ ¬ s.Holds v := by
  induction h with
  | nil => cases hv
  | shared rest ih =>
    rcases List.mem_cons.1 hv with rfl | hv
    · exact .inl List.mem_cons_self
    · exact (ih hv).imp_left (List.mem_cons_of_mem _)
  | fresh new held other rest ih =>
    rcases List.mem_cons.1 hv with rfl | hv
    · exact .inr new
    · exact (ih hv).imp_left (List.mem_cons_of_mem _)

/-- What is new to a later storage is new to an earlier one. -/
lemma earlier (h : Stem t u origins vs) (hst : KeptBut written s t) : Stem s u origins vs := by
  induction h with
  | nil => exact .nil
  | shared rest ih => exact .shared ih
  | fresh new held other rest ih => exact .fresh (fun hv => new (hst.holds hv)) held other ih

/-- A vector is put into fresh storage before the others are found. -/
lemma cons_alloc {values : List α} (h : Stem (s.alloc values).1 t origins vs)
    (ht : KeptBut written (s.alloc values).1 t) (hheld : ∀ v, some v ∈ origins → s.Holds v) :
    Stem s t (none :: origins) ((s.alloc values).2 :: vs) := by
  have hnew : (s.alloc values).1.Holds (s.alloc values).2 := by simp [Holds, Store.alloc]
  refine .fresh (Nat.lt_irrefl _) (ht.holds hnew) (fun hmem => ?_) (h.earlier (.alloc s values))
  rcases h.mem_cases hmem with hold | hnot
  · exact absurd (hheld _ hold) (Nat.lt_irrefl _)
  · exact hnot hnew

/-- New vectors are held, and those taken over still are. -/
lemma holds (h : Stem s t origins vs) (hst : KeptBut written s t)
    (hheld : ∀ v, some v ∈ origins → s.Holds v) : ∀ v ∈ vs, t.Holds v := by
  induction h with
  | nil => exact fun _ hv => absurd hv List.not_mem_nil
  | shared rest ih =>
    have hrest := ih fun v hv => hheld v (List.mem_cons_of_mem _ hv)
    exact List.forall_mem_cons.2 ⟨hst.holds (hheld _ List.mem_cons_self), hrest⟩
  | fresh new held other rest ih =>
    exact List.forall_mem_cons.2 ⟨held, ih fun v hv => hheld v (List.mem_cons_of_mem _ hv)⟩

end Stem

lemma allocAll_spec (s : Store α) (xs : List (List α)) :
    KeptBut [] s (s.allocAll xs).1 ∧
      Stem s (s.allocAll xs).1 (xs.map fun _ => none) (s.allocAll xs).2 := by
  induction xs generalizing s with
  | nil => exact ⟨.refl [] s, .nil⟩
  | cons x xs ih =>
    obtain ⟨hkept, hstem⟩ := ih (s.alloc x).1
    exact ⟨.trans (.alloc s x) hkept, hstem.cons_alloc hkept (by simp)⟩

section Runs
variable {δ : Type} {b : β} {e : ε} {x : EStateM ε (Store α) β} {f : β → EStateM ε (Store α) γ}

lemma run_bind_of_ok (h : x.run s = .ok b t) : (x >>= f).run s = (f b).run t := by
  simp only [EStateM.run] at h ⊢
  simp only [bind, EStateM.bind, h]

lemma run_bind_of_error (h : x.run s = .error e t) : (x >>= f).run s = .error e t := by
  simp only [EStateM.run] at h ⊢
  simp only [bind, EStateM.bind, h]

lemma run_adaptExcept_of_ok {g : ε → δ} (h : x.run s = .ok b t) :
    (x.adaptExcept g).run s = .ok b t := by
  simp only [EStateM.run] at h ⊢
  simp only [EStateM.adaptExcept, h]

lemma run_adaptExcept_of_error {g : ε → δ} (h : x.run s = .error e t) :
    (x.adaptExcept g).run s = .error (g e) t := by
  simp only [EStateM.run] at h ⊢
  simp only [EStateM.adaptExcept, h]

end Runs

/-- What a computation leaves behind. If it fails, all vectors are as they were. If it succeeds, all
of them are but those written, and what it gives has the property asked for. -/
inductive Leaves (written : List SharedVector) (s : Store α) (post : β → Store α → Prop) :
    EStateM.Result ε (Store α) β → Prop
  | ok {b : β} {t : Store α} (kept : KeptBut written s t) (holds : post b t) :
    Leaves written s post (.ok b t)
  | error {e : ε} {t : Store α} (kept : KeptBut [] s t) : Leaves written s post (.error e t)

namespace Leaves
variable {δ : Type} {post : β → Store α → Prop} {post' : γ → Store α → Prop}
  {x : EStateM ε (Store α) β} {f : β → EStateM ε (Store α) γ}

lemma pure {b : β} (h : post b s) :
    Leaves written s post ((Pure.pure b : EStateM ε (Store α) β).run s) :=
  .ok (.refl written s) h

/-- What comes before the last operation may only look things up or make new vectors. -/
lemma bind (hx : Leaves [] s post (x.run s))
    (hf : ∀ b t, KeptBut [] s t → post b t → Leaves written t post' ((f b).run t)) :
    Leaves written s post' ((x >>= f).run s) := by
  cases hrun : x.run s with
  | error e t =>
    rw [hrun] at hx
    rw [run_bind_of_error hrun]
    cases hx with
    | error kept => exact .error kept
  | ok b t =>
    rw [hrun] at hx
    rw [run_bind_of_ok hrun]
    cases hx with
    | ok kept holds =>
      have hnext := hf b t kept holds
      generalize (f b).run t = result at hnext ⊢
      cases hnext with
      | error kept' => exact .error (kept.trans kept')
      | ok kept' holds' => exact .ok ((kept.mono (List.nil_subset _)).trans kept') holds'

/-- The storage may be looked at. -/
lemma get {f : Store α → EStateM ε (Store α) γ} (hf : Leaves written s post' ((f s).run s)) :
    Leaves written s post' ((MonadState.get >>= f).run s) := by
  rw [run_bind_of_ok (show EStateM.run MonadState.get s = .ok s s from rfl)]
  exact hf

/-- After the last operation the result is only put together. -/
lemma map {g : β → γ} (hx : Leaves written s post (x.run s))
    (h : ∀ b t, KeptBut written s t → post b t → post' (g b) t) :
    Leaves written s post' ((x >>= fun b => Pure.pure (g b)).run s) := by
  cases hrun : x.run s with
  | error e t =>
    rw [hrun] at hx
    rw [run_bind_of_error hrun]
    cases hx with
    | error kept => exact .error kept
  | ok b t =>
    rw [hrun] at hx
    rw [run_bind_of_ok hrun]
    cases hx with
    | ok kept holds => exact .ok kept (h b t kept holds)

/-- Looking something up does nothing to the storage. -/
lemma lookup {r : Except ε β} (h : ∀ b, r = .ok b → post b s) :
    Leaves written s post ((MonadExcept.ofExcept r : EStateM ε (Store α) β).run s) := by
  cases r with
  | error e => exact .error (.refl [] s)
  | ok b => exact .ok (.refl written s) (h b rfl)

lemma bind_lookup {r : Except ε β}
    (hf : ∀ b, r = .ok b → Leaves written s post' ((f b).run s)) :
    Leaves written s post' ((MonadExcept.ofExcept r >>= f).run s) := by
  cases r with
  | error e => exact .error (.refl [] s)
  | ok b => exact hf b rfl

lemma adaptExcept {g : ε → δ} (hx : Leaves written s post (x.run s)) :
    Leaves written s post ((x.adaptExcept g).run s) := by
  cases hrun : x.run s with
  | error e t =>
    rw [hrun] at hx
    rw [run_adaptExcept_of_error hrun]
    cases hx with
    | error kept => exact .error kept
  | ok b t =>
    rw [hrun] at hx
    rw [run_adaptExcept_of_ok hrun]
    cases hx with
    | ok kept holds => exact .ok kept holds

end Leaves

end Store
end BlockSparse
