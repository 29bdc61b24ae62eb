import BlockSparse.Proofs.Storage.Locate
import Mathlib.Data.List.Nodup

/-! Writing all entries of a view at once. Every component takes the window of the values that lies
where the component does. A vector that stands several times in the view is written several times,
and the last time counts; so the view reads as the values that were written exactly if the windows
of each such vector are the same. -/
namespace BlockSparse
variable {S α : Type}

namespace Store
variable {s t : Store α} {v : SharedVector} {x : List α} {pieces : List (SharedVector × List α)}
  {k : Nat}

@[simp] lemma holds_write (w : SharedVector) (values : List α) :
    (s.write w values).Holds v ↔ s.Holds v := by
  simp [Holds, write]

lemma holds_writeAll (pieces : List (SharedVector × List α)) :
    (s.writeAll pieces).Holds v ↔ s.Holds v := by
  induction pieces generalizing s with
  | nil => exact Iff.rfl
  | cons p pieces ih => exact ih.trans (holds_write p.1 p.2)

lemma read_writeAll_of_not_mem (h : ∀ p ∈ pieces, p.1 ≠ v) :
    (s.writeAll pieces).read v = s.read v := by
  induction pieces generalizing s with
  | nil => rfl
  | cons p pieces ih =>
    obtain ⟨hp, hpieces⟩ := List.forall_mem_cons.1 h
    exact (ih hpieces).trans (read_write_of_ne s hp p.2)

/-- Of several pieces for one vector the last one stays. -/
lemma read_writeAll_of_last (hv : s.Holds v) (hk : pieces[k]? = some (v, x))
    (hlast : ∀ k' > k, ∀ p, pieces[k']? = some p → p.1 ≠ v) :
    (s.writeAll pieces).read v = x := by
  induction pieces generalizing s k with
  | nil => cases hk
  | cons p pieces ih =>
    cases k with
    | zero =>
      obtain rfl : p = (v, x) := Option.some.inj hk
      have hbehind : ∀ q ∈ pieces, q.1 ≠ v := by
        intro q hq
        obtain ⟨k', hk'⟩ := List.mem_iff_getElem?.1 hq
        exact hlast (k' + 1) (Nat.succ_pos k') q hk'
      exact (read_writeAll_of_not_mem hbehind).trans (read_write_self hv x)
    | succ k =>
      exact ih ((holds_write p.1 p.2).2 hv) hk fun k' hk' => hlast (k' + 1) (Nat.succ_lt_succ hk')

/-- Storage is determined by which vectors it holds and what is read of them. -/
lemma ext_read (hholds : ∀ v, t.Holds v ↔ s.Holds v) (hread : ∀ v, t.read v = s.read v) :
    t = s := by
  have hget : ∀ i : Nat, t.vectors[i]? = s.vectors[i]? := by
    intro i
    have hi := hread ⟨i⟩
    by_cases hheld : i < s.vectors.length
    · have hheld' : i < t.vectors.length := (hholds ⟨i⟩).2 hheld
      simpa [read, List.getElem?_eq_getElem, hheld, hheld'] using hi
    · have hheld' : ¬ i < t.vectors.length := fun h => hheld ((hholds ⟨i⟩).1 h)
      rw [List.getElem?_eq_none (Nat.le_of_not_lt hheld),
        List.getElem?_eq_none (Nat.le_of_not_lt hheld')]
  cases s
  cases t
  exact congrArg Store.mk (List.ext_getElem? hget)

/-- Pieces that are in place already may be written once more. -/
lemma writeAll_of_read (hheld : ∀ p ∈ pieces, s.Holds p.1) (h : ∀ p ∈ pieces, s.read p.1 = p.2) :
    s.writeAll pieces = s := by
  induction pieces with
  | nil => rfl
  | cons p pieces ih =>
    obtain ⟨hp, hpieces⟩ := List.forall_mem_cons.1 h
    obtain ⟨hheldp, hheldpieces⟩ := List.forall_mem_cons.1 hheld
    have hsame : s.write p.1 p.2 = s := by
      refine ext_read (fun v => holds_write p.1 p.2) fun v => ?_
      by_cases hv : p.1 = v
      · rw [← hv, read_write_self hheldp, hp]
      · exact read_write_of_ne s hv p.2
    change (s.write p.1 p.2).writeAll pieces = s
    rw [hsame, ih hheldpieces hpieces]

end Store

namespace NestedVector
variable {s t : Store α} {n : NestedVector} {values : List α} {v : SharedVector} {k : Nat}

/-- The values between the boundaries of a component. -/
def window (n : NestedVector) (values : List α) (k : Nat) : List α :=
  let start := n.offsets[k]?.getD 0
  (values.drop start).take (n.offsets[k + 1]?.getD 0 - start)

/-- What a bulk write puts into each component. -/
def pieces (n : NestedVector) (values : List α) : List (SharedVector × List α) :=
  n.components.zip (Offsets.slices values n.offsets)

lemma run_copyFrom (hlen : values.length = n.length) :
    (n.copyFrom values).run s = .ok () (s.writeAll (n.pieces values)) := by
  simp only [copyFrom, if_pos hlen]
  rfl

lemma run_copyFrom_of_ne (hlen : values.length ≠ n.length) :
    (n.copyFrom values).run s = .error (.componentLength 0 n.length values.length) s := by
  simp only [copyFrom, if_neg hlen]
  rfl

/-- A vector that occurs in a list occurs there for the last time. -/
lemma exists_last {vs : List SharedVector} (hv : v ∈ vs) :
    ∃ k : Nat, vs[k]? = some v ∧ ∀ k' > k, vs[k']? ≠ some v := by
  induction vs with
  | nil => exact absurd hv List.not_mem_nil
  | cons w vs ih =>
    by_cases hmem : v ∈ vs
    · obtain ⟨k, hk, hlast⟩ := ih hmem
      refine ⟨k + 1, hk, fun k' hk' => ?_⟩
      obtain ⟨k', rfl⟩ := Nat.exists_eq_add_of_lt (Nat.zero_lt_of_lt hk')
      rw [Nat.zero_add] at hk' ⊢
      exact hlast k' (Nat.lt_of_succ_lt_succ hk')
    · obtain rfl := (List.mem_cons.1 hv).resolve_right hmem
      refine ⟨0, rfl, fun k' hk' hfound => hmem ?_⟩
      obtain ⟨k', rfl⟩ := Nat.exists_eq_add_of_lt hk'
      rw [Nat.zero_add] at hfound
      exact List.mem_of_getElem? hfound

namespace Fits

lemma getElem?_slices (h : n.Fits s) (values : List α) (k : Nat) :
    (Offsets.slices values n.offsets)[k]? =
      n.components[k]?.map fun _ => n.window values k := by
  by_cases hk : k < n.components.length
  · rw [Offsets.getElem?_slices, window, h.boundary (Nat.le_of_lt hk), h.boundary hk,
      List.getElem?_eq_getElem hk]
    rfl
  · have hout : (Offsets.slices values n.offsets).length ≤ k := by
      rw [Offsets.length_slices, h, Offsets.length_cumulative, List.length_map]
      exact Nat.le_of_not_lt hk
    rw [List.getElem?_eq_none hout, List.getElem?_eq_none (Nat.le_of_not_lt hk)]
    rfl

lemma getElem?_pieces (h : n.Fits s) (values : List α) (k : Nat) :
    (n.pieces values)[k]? = n.components[k]?.map fun v => (v, n.window values k) := by
  rw [pieces, List.zip, List.getElem?_zipWith, h.getElem?_slices]
  cases n.components[k]? <;> rfl

/-- A view reads as given values if each component holds its window of them. -/
lemma toFlat_eq_iff [Zero α] (h : n.Fits s) (hlen : values.length = n.length) :
    n.toFlat s = values ↔
      ∀ k v, n.components[k]? = some v → s.read v = n.window values k := by
  have hlengths : (n.components.map s.read).map List.length = n.components.map s.length :=
    List.map_map
  have hwindows : n.components.map s.read = Offsets.slices values n.offsets ↔
      ∀ k v, n.components[k]? = some v → s.read v = n.window values k := by
    rw [List.ext_getElem?_iff]
    refine forall_congr' fun k => ?_
    rw [List.getElem?_map, h.getElem?_slices]
    cases n.components[k]? <;> simp
  rw [← hwindows, h.toFlat_eq, List.flatMap_def]
  constructor
  · intro hflat
    rw [← hflat, h, ← hlengths, Offsets.slices_flatten]
  · intro hslices
    rw [hslices, h, Offsets.cumulative, Offsets.flatten_slices, ← h.length_eq, ← hlen]
    exact List.take_length

/-- A component holds the window of its last occurrence. -/
lemma read_copy (h : n.Fits s) (hheld : ∀ v ∈ n.components, s.Holds v)
    (hk : n.components[k]? = some v) (hlast : ∀ k' > k, n.components[k']? ≠ some v) :
    (s.writeAll (n.pieces values)).read v = n.window values k := by
  refine Store.read_writeAll_of_last (k := k) (hheld v (List.mem_of_getElem? hk)) ?_
    fun k' hk' p hp => ?_
  · rw [h.getElem?_pieces, hk]
    rfl
  · rw [h.getElem?_pieces] at hp
    obtain ⟨w, hw, rfl⟩ := Option.map_eq_some_iff.1 hp
    exact fun hwv => hlast k' hk' (hw.trans (congrArg some hwv))

lemma read_copy_of_not_mem (hv : v ∉ n.components) :
    (s.writeAll (n.pieces values)).read v = s.read v :=
  Store.read_writeAll_of_not_mem fun _ hp hpv => hv (hpv ▸ (List.of_mem_zip hp).1)

/-- Writing the same values once more changes nothing. -/
lemma copy_copy (h : n.Fits s) (hheld : ∀ v ∈ n.components, s.Holds v)
    (hlen : values.length = n.length) :
    (s.writeAll (n.pieces values)).writeAll (n.pieces values) =
      s.writeAll (n.pieces values) := by
  have hkept : Store.KeptBut n.components s (s.writeAll (n.pieces values)) :=
    h.kept_copy hheld hlen (List.Subset.refl _)
  have hheld' : ∀ v ∈ n.components, (s.writeAll (n.pieces values)).Holds v := fun v hv =>
    hkept.holds (hheld v hv)
  refine Store.ext_read (fun v => Store.holds_writeAll _) fun v => ?_
  by_cases hv : v ∈ n.components
  · obtain ⟨k, hk, hlast⟩ := exists_last hv
    rw [(h.kept hheld hkept).read_copy hheld' hk hlast, h.read_copy hheld hk hlast]
  · exact read_copy_of_not_mem hv

/-- Writing back what a view reads as changes nothing. -/
lemma copy_toFlat [Zero α] (h : n.Fits s) (hheld : ∀ v ∈ n.components, s.Holds v) :
    s.writeAll (n.pieces (n.toFlat s)) = s := by
  refine Store.writeAll_of_read (fun p hp => hheld _ (List.of_mem_zip hp).1) fun p hp => ?_
  obtain ⟨k, hk⟩ := List.mem_iff_getElem?.1 hp
  rw [h.getElem?_pieces] at hk
  obtain ⟨v, hv, rfl⟩ := Option.map_eq_some_iff.1 hk
  exact (h.toFlat_eq_iff h.length_toFlat).1 rfl k v hv

/-- A view reads as the values written if no vector was given two of them. -/
lemma toFlat_copy_eq_iff [Zero α] (h : n.Fits s) (hheld : ∀ v ∈ n.components, s.Holds v)
    (hlen : values.length = n.length) :
    n.toFlat (s.writeAll (n.pieces values)) = values ↔
      ∀ i j v, n.components[i]? = some v → n.components[j]? = some v →
        n.window values i = n.window values j := by
  have hfits := h.kept hheld (h.kept_copy hheld hlen (List.Subset.refl _))
  refine (hfits.toFlat_eq_iff hlen).trans ⟨fun hread i j v hi hj => ?_, fun hsame i v hi => ?_⟩
  · exact (hread i v hi).symm.trans (hread j v hj)
  · obtain ⟨k, hk, hlast⟩ := exists_last (List.mem_of_getElem? hi)
    exact (h.read_copy hheld hk hlast).trans (hsame k i v hk hi)

end Fits

variable [FunctionSpace S] [BEq S] [Zero α] [One α] [Add α] [Mul α] [Neg α] [BEq α]

/-- In every state of a session, values that are as many as a view has entries can be written
through it, and no others. Then each component holds its window of the values, the last one if it
stands in the view several times, and all other vectors are as they were. -/
theorem copyFrom_outcome {calls : List (Session.Call S α)} (hn : Session.Bound calls (.nested n))
    (values : List α) :
    let s := ((Session.empty : Session S α).run calls).store
    n.InRange s ∧
    (values.length ≠ n.length → (n.copyFrom values).run s =
      .error (.componentLength 0 n.length values.length) s) ∧
    (values.length = n.length → ∃ t, (n.copyFrom values).run s = .ok () t ∧
      (∀ k v, n.components[k]? = some v → (∀ k' > k, n.components[k']? ≠ some v) →
        t.read v = n.window values k) ∧
      (∀ v, (t.Holds v ↔ s.Holds v) ∧ (v ∉ n.components → t.read v = s.read v)) ∧
      (n.toFlat t = values ↔ ∀ i j v, n.components[i]? = some v → n.components[j]? = some v →
        n.window values i = n.window values j) ∧
      (n.components.Nodup → n.toFlat t = values) ∧
      (n.copyFrom values).run t = .ok () t) ∧
    (n.copyFrom (n.toFlat s)).run s = .ok () s := by
  intro s
  have hfits : n.Fits s := hn.intact.fits
  have hheld : ∀ v ∈ n.components, s.Holds v := hn.intact.held
  refine ⟨hfits.inRange hheld, run_copyFrom_of_ne, fun hlen => ?_, ?_⟩
  · have hreads := hfits.toFlat_copy_eq_iff hheld hlen
    refine ⟨_, run_copyFrom hlen, fun k v => hfits.read_copy hheld, fun v => ?_, hreads,
      fun hnodup => hreads.2 fun i j v hi hj => ?_, ?_⟩
    · exact ⟨Store.holds_writeAll _, Fits.read_copy_of_not_mem⟩
    · obtain ⟨_, hi⟩ := List.getElem?_eq_some_iff.1 hi
      obtain ⟨_, hj⟩ := List.getElem?_eq_some_iff.1 hj
      rw [hnodup.getElem_inj_iff.1 (hi.trans hj.symm)]
    · rw [run_copyFrom hlen, hfits.copy_copy hheld hlen]
  · rw [run_copyFrom hfits.length_toFlat, hfits.copy_toFlat hheld]

/-- A vector that stands twice in a view keeps the second window, so the view does not read as the
values that were written. -/
theorem copyFrom_outcome_overwritten :
    let calls : List (Session.Call NamedSpace Int) := [⟨.shared [1, 2], ["v"]⟩,
      ⟨.shared [3], ["w"]⟩, ⟨.shared [6], ["u"]⟩, ⟨.nested ["v", "w", "v"], ["n"]⟩]
    let s := ((Session.empty : Session NamedSpace Int).run calls).store
    let n : NestedVector := ⟨[⟨0⟩, ⟨1⟩, ⟨0⟩], [0, 2, 3, 5]⟩
    Session.Bound calls (.nested n) ∧ ∃ t, (n.copyFrom [7, 8, 9, 10, 11]).run s = .ok () t ∧
      t.read ⟨0⟩ = [10, 11] ∧ t.read ⟨2⟩ = [6] ∧ n.toFlat t ≠ [7, 8, 9, 10, 11] := by
  intro calls s n
  have hbound : Session.Bound calls (.nested n) := ⟨calls, [], "n", rfl, .head _⟩
  obtain ⟨_, _, hwritten, _⟩ := copyFrom_outcome hbound [7, 8, 9, 10, 11]
  obtain ⟨t, hrun, hlast, hother, hflat, _⟩ := hwritten rfl
  have hend : ∀ k' > 2, n.components[k']? ≠ some ⟨0⟩ := by
    intro k' hk' hfound
    exact Nat.not_lt.2 hk' (List.getElem?_eq_some_iff.1 hfound).1
  refine ⟨hbound, t, hrun, hlast 2 ⟨0⟩ rfl hend, (hother ⟨2⟩).2 (by decide), fun hread => ?_⟩
  have hwindows := hflat.1 hread 0 2 ⟨0⟩ rfl rfl
  exact absurd hwindows (by decide)

end NestedVector
end BlockSparse
