import BlockSparse.Proofs.Offsets
import BlockSparse.Proofs.Storage.Store
import BlockSparse.Proofs.Traversal

/-! Flat views and the vectors behind them. A view remembers where its components started when it
was made. As long as these boundaries fit the components, every index leads to an entry of one of
them, and what is read or written through the view is read or written there. -/
namespace BlockSparse

namespace NestedVector
variable {α : Type} {s t : Store α} {n : NestedVector} {v : SharedVector} {i r index : Nat}
  {written : List SharedVector} {values : List α}

/-- The boundaries of the view are those of its components as they are now. -/
def Fits (s : Store α) (n : NestedVector) : Prop :=
  n.offsets = Offsets.cumulative (n.components.map s.length)

/-- Every access through the view stays inside its components and inside the flat list. -/
structure InRange (s : Store α) (n : NestedVector) : Prop where
  /-- An index is counted from the last boundary at or before it, and lies inside the component that
  starts there. -/
  place : ∀ index < n.length, ∃ component place v start,
    n.locate index = some (component, place) ∧ n.components[component]? = some v ∧
      (n.offsets.takeWhile (· ≤ index)).length = component + 1 ∧
      n.offsets[component]? = some start ∧ start + place = index ∧ place < s.length v
  /-- The boundaries of a component are as far apart as it is long, and end inside the flat list. -/
  window : ∀ component v, n.components[component]? = some v → ∃ start stop,
    n.offsets[component]? = some start ∧ n.offsets[component + 1]? = some stop ∧
      start + s.length v = stop ∧ stop ≤ n.length
  /-- A piece of copied values is as long as the component into which it goes, also after the pieces
  before it have been written. -/
  piece : ∀ values : List α, values.length = n.length → ∀ front v piece back,
    n.components.zip (Offsets.slices values n.offsets) = front ++ (v, piece) :: back →
      piece.length = (s.writeAll front).length v

lemma fits_ofComponents (s : Store α) (components : List SharedVector) :
    (ofComponents s components).Fits s := rfl

namespace Fits

/-- Boundaries stay right, because vectors keep their lengths. -/
lemma kept (h : n.Fits s) (hheld : ∀ v ∈ n.components, s.Holds v)
    (hkept : Store.KeptBut written s t) : n.Fits t := by
  have hlengths : n.components.map t.length = n.components.map s.length :=
    List.map_congr_left fun v hv => hkept.length (hheld v hv)
  rw [Fits, hlengths]
  exact h

lemma length_eq (h : n.Fits s) : n.length = (n.components.map s.length).sum := by
  rw [length, h, Offsets.cumulative, Offsets.getLast?_cumulativeFrom, Option.getD_some,
    Nat.zero_add]

lemma exists_place (h : n.Fits s) (hindex : index < n.length) : ∃ i v r,
    n.components[i]? = some v ∧ r < s.length v ∧
      index = Offsets.position (n.components.map s.length) i r := by
  rw [h.length_eq] at hindex
  obtain ⟨i, r, hr, rfl⟩ := Offsets.exists_position hindex
  have hi := Offsets.lt_length_of_lt hr
  rw [List.length_map] at hi
  refine ⟨i, n.components[i], r, List.getElem?_eq_getElem hi, ?_, rfl⟩
  simpa [List.getElem?_eq_getElem hi] using hr

lemma count_boundaries (h : n.Fits s) (hv : n.components[i]? = some v) (hr : r < s.length v) :
    (n.offsets.takeWhile (· ≤ Offsets.position (n.components.map s.length) i r)).length =
      i + 1 := by
  have hsize : r < (n.components.map s.length)[i]?.getD 0 := by simpa [hv] using hr
  have hcount := Offsets.length_takeWhile_cumulativeFrom 0 hsize
  rw [Nat.zero_add] at hcount
  rw [h]
  exact hcount

lemma boundary (h : n.Fits s) (hi : i ≤ n.components.length) :
    n.offsets[i]? = some ((n.components.map s.length).take i).sum := by
  rw [h, Offsets.getElem?_cumulative _ _ (by rwa [List.length_map]), Offsets.total_eq_sum]

/-- A place in a component is found again from its position. -/
lemma locate_position (h : n.Fits s) (hv : n.components[i]? = some v) (hr : r < s.length v) :
    n.locate (Offsets.position (n.components.map s.length) i r) = some (i, r) := by
  have hi : i < n.components.length := (List.getElem?_eq_some_iff.1 hv).1
  have hsize : r < (n.components.map s.length)[i]?.getD 0 := by simpa [hv] using hr
  have hplace : Offsets.position (n.components.map s.length) i r -
      (n.offsets[i]?).getD 0 = r := by
    rw [h.boundary (Nat.le_of_lt hi)]
    exact Nat.add_sub_cancel_left _ _
  rw [locate, if_pos (h.length_eq ▸ Offsets.position_lt_sum hsize), h.count_boundaries hv hr]
  exact congrArg (fun place => some (i, place)) hplace

lemma address?_position (h : n.Fits s) (hv : n.components[i]? = some v) (hr : r < s.length v) :
    n.address? (Offsets.position (n.components.map s.length) i r) = some (v, r) := by
  simp [address?, h.locate_position hv hr, hv]

lemma address?_eq_none (hindex : n.length ≤ index) : n.address? index = none := by
  simp [address?, locate, Nat.not_lt.2 hindex]

/-- The place behind an index lies in a component. -/
lemma of_address? (h : n.Fits s) {a : SharedVector × Nat} (ha : n.address? index = some a) :
    a.1 ∈ n.components ∧ a.2 < s.length a.1 := by
  by_cases hindex : index < n.length
  · obtain ⟨i, v, r, hv, hr, rfl⟩ := h.exists_place hindex
    rw [h.address?_position hv hr] at ha
    cases ha
    exact ⟨List.mem_of_getElem? hv, hr⟩
  · rw [address?_eq_none (Nat.not_lt.1 hindex)] at ha
    cases ha

/-- Copied values are cut into pieces as long as the components. -/
lemma length_piece (h : n.Fits s) (hlen : values.length = n.length)
    {p : SharedVector × List α}
    (hp : p ∈ n.components.zip (Offsets.slices values n.offsets)) :
    p.1 ∈ n.components ∧ p.2.length = s.length p.1 := by
  have hlengths : (Offsets.slices values n.offsets).map List.length =
      n.components.map s.length := by
    rw [h]
    exact Offsets.map_length_slices (by rw [Nat.zero_add, hlen, h.length_eq])
  obtain ⟨i, hi⟩ := List.mem_iff_getElem?.1 hp
  obtain ⟨hv, hpiece⟩ := List.getElem?_zip_eq_some.1 hi
  have hsizes := congrArg (·[i]?) hlengths
  simp only [List.getElem?_map, hv, hpiece, Option.map_some] at hsizes
  exact ⟨List.mem_of_getElem? hv, Option.some.inj hsizes⟩

/-- Copying values into a view changes nothing but its components. -/
lemma kept_copy (h : n.Fits s) (hheld : ∀ v ∈ n.components, s.Holds v)
    (hlen : values.length = n.length) {pieces : List (SharedVector × List α)}
    (hpieces : pieces ⊆ n.components.zip (Offsets.slices values n.offsets)) :
    Store.KeptBut n.components s (s.writeAll pieces) := by
  refine (Store.KeptBut.writeAll fun p hp => ?_).mono fun v hv => ?_
  · obtain ⟨hmem, hlength⟩ := h.length_piece hlen (hpieces hp)
    exact ⟨hheld _ hmem, hlength⟩
  · obtain ⟨p, hp, rfl⟩ := List.mem_map.1 hv
    exact (h.length_piece hlen (hpieces hp)).1

/-- Through a view whose boundaries fit, nothing is reached out of range. -/
theorem inRange (h : n.Fits s) (hheld : ∀ v ∈ n.components, s.Holds v) : n.InRange s where
  place index hindex := by
    obtain ⟨i, v, r, hv, hr, rfl⟩ := h.exists_place hindex
    have hi : i < n.components.length := (List.getElem?_eq_some_iff.1 hv).1
    exact ⟨i, r, v, _, h.locate_position hv hr, hv, h.count_boundaries hv hr,
      h.boundary (Nat.le_of_lt hi), rfl, hr⟩
  window i v hv := by
    have hi : i < n.components.length := (List.getElem?_eq_some_iff.1 hv).1
    refine ⟨_, _, h.boundary (Nat.le_of_lt hi), h.boundary hi, ?_, ?_⟩
    · rw [Offsets.sum_take_succ, List.getElem?_map, hv]
      rfl
    · rw [h.length_eq]
      have hle := Offsets.sum_take_le (n.components.map s.length) hi
      rwa [List.take_of_length_le (i := n.components.length) (by simp)] at hle
  piece values hlen front v piece back hsplit := by
    have hmem : (v, piece) ∈ n.components.zip (Offsets.slices values n.offsets) := by
      rw [hsplit]
      exact List.mem_append_right _ List.mem_cons_self
    have hfront : front ⊆ n.components.zip (Offsets.slices values n.offsets) := by
      rw [hsplit]
      exact List.subset_append_left _ _
    obtain ⟨hv, hlength⟩ := h.length_piece hlen hmem
    rw [hlength, (h.kept_copy hheld hlen hfront).length (hheld v hv)]

section Flat
variable [Zero α]

lemma toFlat_eq (h : n.Fits s) : n.toFlat s = n.components.flatMap s.read := by
  have hpaste := Offsets.foldl_paste (0 : α) [] (n.components.map s.read)
  have hlengths : (n.components.map s.read).map List.length = n.components.map s.length :=
    List.map_map
  rw [hlengths, List.zip_map_left, List.foldl_map, List.nil_append, List.nil_append] at hpaste
  rw [toFlat, h.length_eq, List.flatMap_def, h]
  exact hpaste

/-- Reading a view index by index gives its flat list. -/
lemma getElem?_toFlat (h : n.Fits s) (index : Nat) :
    (n.toFlat s)[index]? = n.get? s index := by
  have hlengths : (n.components.map s.read).map List.length = n.components.map s.length :=
    List.map_map
  rw [h.toFlat_eq, List.flatMap_def]
  by_cases hindex : index < n.length
  · obtain ⟨i, v, r, hv, hr, rfl⟩ := h.exists_place hindex
    have hentry := Offsets.getElem?_flatten_position (n.components.map s.read) (i := i) (r := r)
      (by simpa [hlengths, hv] using hr)
    rw [hlengths] at hentry
    rw [hentry]
    simp [get?, h.address?_position hv hr, hv]
  · have hout : (n.components.map s.read).flatten.length ≤ index := by
      rw [List.length_flatten, hlengths, ← h.length_eq]
      exact Nat.not_lt.1 hindex
    rw [List.getElem?_eq_none hout]
    simp [get?, address?_eq_none (Nat.not_lt.1 hindex)]

end Flat
end Fits

section Writes
variable {x : α} {a : SharedVector × Nat}

lemma run_set (ha : n.address? index = some a) :
    (n.set index x).run s = .ok () (s.setEntry a.1 a.2 x) := by
  simp only [set, ha]
  rfl

lemma run_set_of_none (ha : n.address? index = none) :
    (n.set index x).run s = .error (.indexOutOfBounds index n.length) s := by
  simp only [set, ha]
  rfl

/-- Setting an entry writes into a component, or fails before anything is written. -/
lemma leaves_set (h : n.Fits s) (index : Nat) (x : α) :
    Store.Leaves n.components s (fun _ _ => True) ((n.set index x).run s) := by
  cases ha : n.address? index with
  | none =>
    rw [run_set_of_none ha]
    exact .error (.refl [] s)
  | some a =>
    have hcomponent : [a.1] ⊆ n.components :=
      List.cons_subset.2 ⟨(h.of_address? ha).1, List.nil_subset _⟩
    rw [run_set ha]
    exact .ok ((Store.KeptBut.setEntry s a.1 a.2 x).mono hcomponent) trivial

/-- Copying values writes into the components, or fails before anything is written. -/
lemma leaves_copyFrom (h : n.Fits s) (hheld : ∀ v ∈ n.components, s.Holds v) (values : List α) :
    Store.Leaves n.components s (fun _ _ => True) ((n.copyFrom values).run s) := by
  by_cases hlen : values.length = n.length
  · simp only [copyFrom, if_pos hlen]
    exact .ok (h.kept_copy hheld hlen (List.Subset.refl _)) trivial
  · simp only [copyFrom, if_neg hlen]
    exact .error (.refl [] s)

end Writes

end NestedVector

namespace BlockVector
variable {α : Type} [Zero α] [One α] [Add α] [Mul α] [Neg α] [BEq α] {s : Store α}
  {blocks : BlockVector α} {placed : Store α × NestedVector}

lemma length_of_eval {components : List (DenseVector α)} (h : eval blocks = .ok components) :
    components.length = blocks.length := by
  rw [eval_eq] at h
  obtain ⟨_, _, hcomponents⟩ := Traversal.bind_eq_ok_iff.1 h
  exact (Traversal.mapM_eq_ok_iff.1 hcomponents).length_eq.symm

/-- A block vector is put into new storage, one vector for each component. -/
lemma toNested_spec (h : toNested s blocks = .ok placed) :
    Store.KeptBut [] s placed.1 ∧
      Store.Stem s placed.1 (blocks.map fun _ => none) placed.2.components ∧
      placed.2.Fits placed.1 := by
  obtain ⟨components, hcomponents, h⟩ := Traversal.bind_eq_ok_iff.1 h
  cases h
  obtain ⟨hkept, hstem⟩ := Store.allocAll_spec s components
  have horigins : components.map (fun _ => (none : Option SharedVector)) =
      blocks.map fun _ => none := by
    rw [List.map_const', List.map_const', length_of_eval hcomponents]
  rw [horigins] at hstem
  exact ⟨hkept, hstem, NestedVector.fits_ofComponents _ _⟩

/-- Putting a block vector into storage fails before anything is put there. -/
lemma leaves_toNested (s : Store α) (blocks : BlockVector α) :
    Store.Leaves [] s (fun placed t => toNested s blocks = .ok placed ∧ t = s)
      ((MonadExcept.ofExcept (toNested s blocks) : EStateM Error (Store α) _).run s) :=
  .lookup fun _ h => ⟨h, rfl⟩

end BlockVector
end BlockSparse
