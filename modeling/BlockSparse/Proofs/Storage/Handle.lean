import BlockSparse.Proofs.Storage.BlockFunction
import BlockSparse.Storage.Session
import Mathlib.Data.List.Forall2

/-! Handles and the storage behind them. A handle is intact if the vectors that it refers to are
held, views have the boundaries that their components have now, and functions have one coefficient
for each dimension. This lasts as long as vectors keep their lengths. -/
namespace BlockSparse
variable {S α : Type}

namespace Handle

/-- The vectors that can be reached through a handle. A block vector holds its own values. -/
def storages : Handle S α → List SharedVector
  | vector v => [v]
  | nested n => n.components
  | function f => [f.coefficients]
  | blockFunction b => b.vectors
  | blockVector _ => []

section Kinds
variable {h : Handle S α}

lemma vector?_eq_some_iff {v : SharedVector} : h.vector? = some v ↔ h = .vector v := by
  cases h <;> simp [vector?]

lemma nested?_eq_some_iff {n : NestedVector} : h.nested? = some n ↔ h = .nested n := by
  cases h <;> simp [nested?]

lemma function?_eq_some_iff {f : SpaceFunction S} : h.function? = some f ↔ h = .function f := by
  cases h <;> simp [function?]

lemma blockFunction?_eq_some_iff {b : BlockFunction S} :
    h.blockFunction? = some b ↔ h = .blockFunction b := by
  cases h <;> simp [blockFunction?]

lemma blockVector?_eq_some_iff {blocks : List (Expr α)} :
    h.blockVector? = some blocks ↔ h = .blockVector blocks := by
  cases h <;> simp [blockVector?]

end Kinds

variable [FunctionSpace S] {s t : Store α} {written : List SharedVector} {h : Handle S α}

/-- Views have the boundaries of their components, and functions as many coefficients as their
spaces have dimensions. -/
def Fits (t : Store α) : Handle S α → Prop
  | nested n => n.Fits t
  | function f => f.Fits t
  | blockFunction b => ∀ f ∈ b.functions, f.Fits t
  | _ => True

/-- What a handle refers to is in storage and has the lengths that the handle relies on. -/
structure Intact (t : Store α) (h : Handle S α) : Prop where
  held : ∀ v ∈ h.storages, t.Holds v
  fits : h.Fits t

lemma Intact.kept (hh : h.Intact s) (hkept : Store.KeptBut written s t) : h.Intact t := by
  refine ⟨fun v hv => hkept.holds (hh.held v hv), ?_⟩
  obtain ⟨hheld, hfits⟩ := hh
  cases h with
  | vector v => trivial
  | nested n => exact NestedVector.Fits.kept hfits hheld hkept
  | function f => exact SpaceFunction.Fits.kept hfits (hheld _ List.mem_cons_self) hkept
  | blockFunction b =>
    exact fun f hf => (hfits f hf).kept (hheld _ (List.mem_map_of_mem hf)) hkept
  | blockVector blocks => trivial

/-- A handle made by a command, with the storage taken over from elsewhere as the origins say. -/
structure Made (s t : Store α) (origins : List (Option SharedVector)) (h : Handle S α) :
    Prop where
  stem : Store.Stem s t origins h.storages
  intact : h.Intact t

lemma intact_of_made {origins : List (List (Option SharedVector))} {offers : List (Handle S α)}
    (hmade : List.Forall₂ (Made s t) origins offers) (hh : h ∈ offers) : h.Intact t := by
  induction hmade with
  | nil => exact absurd hh List.not_mem_nil
  | cons hfirst _ ih =>
    rcases List.mem_cons.1 hh with rfl | hh
    · exact hfirst.intact
    · exact ih hh

lemma Made.of_shared (hh : h.Intact s) : h.Made s s (h.storages.map some) :=
  ⟨.of_shared s s h.storages, hh⟩

lemma Made.of_vector {v : SharedVector} (hv : s.Holds v) :
    (vector v : Handle S α).Made s s [some v] :=
  .of_shared (h := vector v) ⟨List.forall_mem_singleton.2 hv, trivial⟩

lemma Made.of_components {vs : List SharedVector} (hvs : ∀ v ∈ vs, s.Holds v) :
    (nested (NestedVector.ofComponents s vs) : Handle S α).Made s s (vs.map some) :=
  .of_shared (h := nested (NestedVector.ofComponents s vs))
    ⟨hvs, NestedVector.fits_ofComponents s vs⟩

lemma Made.of_function {f : SpaceFunction S} (hheld : s.Holds f.coefficients) (hfits : f.Fits s) :
    (function f : Handle S α).Made s s [some f.coefficients] :=
  .of_shared (h := function f) ⟨List.forall_mem_singleton.2 hheld, hfits⟩

lemma Made.of_blockVector (s : Store α) (blocks : List (Expr α)) :
    (blockVector blocks : Handle S α).Made s s [] :=
  .of_shared (h := blockVector blocks) ⟨fun _ hv => absurd hv List.not_mem_nil, trivial⟩

lemma Made.of_stem {origins : List (Option SharedVector)}
    (hstem : Store.Stem s t origins h.storages) (hkept : Store.KeptBut written s t)
    (hheld : ∀ v, some v ∈ origins → s.Holds v) (hfits : h.Fits t) : h.Made s t origins :=
  ⟨hstem, hstem.holds hkept hheld, hfits⟩

lemma Made.of_alloc (s : Store α) (values : List α) :
    (vector (s.alloc values).2 : Handle S α).Made s (s.alloc values).1 [none] :=
  .of_stem (.alloc s values) (.alloc s values) (by simp) trivial

end Handle

end BlockSparse
