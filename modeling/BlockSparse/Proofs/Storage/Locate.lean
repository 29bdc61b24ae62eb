import BlockSparse.Proofs.Storage.Session
import Mathlib.Algebra.Ring.Int.Defs
import Mathlib.Data.Prod.Lex
import Mathlib.Order.Hom.Set
import Mathlib.Order.Interval.Set.Defs

/-! Indices of a view and the places behind them. The indices of a view, in their order, are the
places in its components, component by component, and locating an index is this isomorphism of
orders. Components without entries have no places, so wherever they stand no index leads to them. -/
namespace BlockSparse
variable {S α : Type}

namespace NestedVector
variable {s t : Store α} {n : NestedVector} {c l index : Nat}

/-- The places in the components of a view. They come component by component, and inside a component
in the order of its entries. -/
def places (s : Store α) (n : NestedVector) : Set (ℕ ×ₗ ℕ) :=
  {p | ∃ v, n.components[(ofLex p).1]? = some v ∧ (ofLex p).2 < s.length v}

/-- Locating maps the indices of a view onto its places, in their order. -/
structure LocatesInOrder (s : Store α) (n : NestedVector) : Prop where
  /-- Locating is an isomorphism of orders, and an index is found again by counting on from where
  the component starts. -/
  iso : ∃ f : Set.Iio n.length ≃o n.places s,
    (∀ index : Set.Iio n.length, n.locate index = some (ofLex (f index).1)) ∧
      ∀ p, ∃ start, n.offsets[(ofLex p.1).1]? = some start ∧
        start + (ofLex p.1).2 = (f.symm p : Nat)
  /-- Nothing else is located. -/
  outside : ∀ index, n.locate index = none ↔ n.length ≤ index
  /-- The boundaries at or before an index come first, and they are not none. -/
  boundaries : ∀ index, 0 < (n.offsets.takeWhile (· ≤ index)).length ∧
    ∀ k offset, n.offsets[k]? = some offset →
      (offset ≤ index ↔ k < (n.offsets.takeWhile (· ≤ index)).length)

namespace Fits

/-- The index of a place counts the entries of the components before it. -/
def indexOf (h : n.Fits s) (p : n.places s) : Set.Iio n.length :=
  ⟨Offsets.position (n.components.map s.length) (ofLex p.1).1 (ofLex p.1).2, by
    obtain ⟨v, hv, hl⟩ := p.2
    rw [Set.mem_Iio, h.length_eq]
    exact Offsets.position_lt_sum (by simpa [hv] using hl)⟩

lemma strictMono_indexOf (h : n.Fits s) : StrictMono h.indexOf := by
  intro p q hlt
  obtain ⟨v, hv, hl⟩ := p.2
  rcases Prod.Lex.lt_iff.1 (show p.1 < q.1 from hlt) with hc | ⟨hc, hl'⟩
  · exact Offsets.position_lt_position hc (by simpa [hv] using hl)
  · change Offsets.position _ _ _ < Offsets.position _ _ _
    rw [hc]
    exact Nat.add_lt_add_left hl' _

lemma surjective_indexOf (h : n.Fits s) : Function.Surjective h.indexOf := by
  rintro ⟨index, hindex⟩
  obtain ⟨c, v, l, hv, hl, rfl⟩ := h.exists_place hindex
  exact ⟨⟨toLex (c, l), v, hv, hl⟩, rfl⟩

/-- The indices of a view are its places, in the same order. -/
noncomputable def placeIso (h : n.Fits s) : Set.Iio n.length ≃o n.places s :=
  (h.strictMono_indexOf.orderIsoOfSurjective _ h.surjective_indexOf).symm

lemma locate_eq_placeIso (h : n.Fits s) (index : Set.Iio n.length) :
    n.locate index = some (ofLex (h.placeIso index).1) := by
  obtain ⟨p, rfl⟩ := h.surjective_indexOf index
  have hp : h.placeIso (h.indexOf p) = p := OrderIso.symm_apply_apply _ p
  obtain ⟨v, hv, hl⟩ := p.2
  rw [hp]
  exact h.locate_position hv hl

theorem locatesInOrder (h : n.Fits s) : n.LocatesInOrder s where
  iso := by
    refine ⟨h.placeIso, h.locate_eq_placeIso, fun p => ?_⟩
    obtain ⟨v, hv, _⟩ := p.2
    have hc := (List.getElem?_eq_some_iff.1 hv).1
    exact ⟨_, h.boundary (Nat.le_of_lt hc), rfl⟩
  outside index := by
    constructor
    · intro hnone
      by_contra hlt
      rw [h.locate_eq_placeIso ⟨index, Nat.not_le.1 hlt⟩] at hnone
      cases hnone
    · intro hle
      rw [locate, if_neg (Nat.not_lt.2 hle)]
  boundaries index := by
    have hsorted : n.offsets.Pairwise (· ≤ ·) := by
      rw [h]
      exact (Offsets.pairwise_cumulativeFrom 0 _).1
    have hpartition := fun k offset (hk : n.offsets[k]? = some offset) =>
      Offsets.le_iff_lt_length_takeWhile hsorted hk index
    exact ⟨(hpartition 0 0 (h.boundary (Nat.zero_le _))).1 (Nat.zero_le index), hpartition⟩

lemma length_toFlat [Zero α] (h : n.Fits s) : (n.toFlat s).length = n.length := by
  rw [h.toFlat_eq, List.length_flatMap, h.length_eq]
  rfl

end Fits

variable [FunctionSpace S] [BEq S] [Zero α] [One α] [Add α] [Mul α] [Neg α] [BEq α]

/-- Locating is an isomorphism from the indices of a view to the places in its components, whatever
the components are, and it stays one in every later state of a session. There, reading through the
view gives the entries of its flat list, and nothing at other indices. -/
theorem locate_orderIso :
    (∀ (s : Store α) (components : List SharedVector),
      (ofComponents s components).LocatesInOrder s) ∧
    ∀ (calls : List (Session.Call S α)) (n : NestedVector), Session.Bound calls (.nested n) →
      let s := ((Session.empty : Session S α).run calls).store
      n.LocatesInOrder s ∧ (n.toFlat s).length = n.length ∧
        ∀ index, (index < n.length → ∃ x, (n.toFlat s)[index]? = some x ∧
          n.get? s index = some x) ∧ (n.length ≤ index → n.get? s index = none) := by
  refine ⟨fun s components => (fits_ofComponents s components).locatesInOrder,
    fun calls n hn => ?_⟩
  have hfits : n.Fits ((Session.empty : Session S α).run calls).store := hn.intact.fits
  refine ⟨hfits.locatesInOrder, hfits.length_toFlat, fun index => ⟨fun hlt => ?_, fun hle => ?_⟩⟩
  · rw [← hfits.length_toFlat] at hlt
    exact ⟨_, List.getElem?_eq_getElem hlt,
      (hfits.getElem?_toFlat index).symm.trans (List.getElem?_eq_getElem hlt)⟩
  · rw [← hfits.getElem?_toFlat, List.getElem?_eq_none (hfits.length_toFlat.trans_le hle)]

/-- A vector that stands twice between components without entries. -/
theorem locate_orderIso_scattered :
    let calls : List (Session.Call NamedSpace Int) := [⟨.shared [1, 2], ["v"]⟩,
      ⟨.shared [], ["e"]⟩, ⟨.nested ["e", "v", "e", "e", "v", "e"], ["n"]⟩]
    let s := ((Session.empty : Session NamedSpace Int).run calls).store
    let n : NestedVector := ⟨[⟨1⟩, ⟨0⟩, ⟨1⟩, ⟨1⟩, ⟨0⟩, ⟨1⟩], [0, 0, 2, 2, 2, 4, 4]⟩
    Session.Bound calls (.nested n) ∧ n.LocatesInOrder s ∧ n.locate 2 = some (4, 0) ∧
      (∃ x, (n.toFlat s)[2]? = some x ∧ n.get? s 2 = some x) ∧ n.get? s 4 = none := by
  intro calls s n
  have hbound : Session.Bound calls (.nested n) := ⟨calls, [], "n", rfl, .head _⟩
  obtain ⟨hplaces, _, hget⟩ := locate_orderIso.2 calls n hbound
  exact ⟨hbound, hplaces, rfl, (hget 2).1 (by decide), (hget 4).2 (by decide)⟩

end NestedVector
end BlockSparse
