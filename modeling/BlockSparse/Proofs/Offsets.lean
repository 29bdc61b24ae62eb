import BlockSparse.Offsets
import Mathlib.Algebra.BigOperators.Intervals
import Mathlib.Algebra.Ring.Nat

/-! Positions inside consecutive blocks. Every position below the total size lies in exactly one
block, at one place of that block, so what is summed or listed over all positions can be summed or
listed block by block. Cutting a list at the boundaries and laying the pieces out undo each other.
-/
namespace BlockSparse.Offsets
variable {sizes : List Nat} {i i' r r' : Nat}

/-- The position of the `r`-th place of the `i`-th block. -/
def position (sizes : List Nat) (i r : Nat) : Nat := (sizes.take i).sum + r

lemma total_eq_sum (sizes : List Nat) : total sizes = sizes.sum := rfl

lemma sum_take_succ (sizes : List Nat) (i : Nat) :
    (sizes.take (i + 1)).sum = (sizes.take i).sum + sizes[i]?.getD 0 := by
  rw [List.take_add_one, List.sum_append]
  cases sizes[i]? <;> simp

lemma sum_take_le (sizes : List Nat) (h : i ≤ i') : (sizes.take i).sum ≤ (sizes.take i').sum := by
  induction h with
  | refl => exact Nat.le_refl _
  | step _ ih =>
    rw [sum_take_succ]
    omega

/-- Every block ends inside the total size. -/
lemma sum_take_add_le (sizes : List Nat) (i : Nat) :
    (sizes.take i).sum + sizes[i]?.getD 0 ≤ sizes.sum := by
  have hsum := congrArg List.sum (List.take_append_drop (i + 1) sizes)
  rw [List.sum_append, sum_take_succ] at hsum
  omega

lemma getD_cumulative (h : i ≤ sizes.length) :
    (cumulative sizes)[i]?.getD 0 = (sizes.take i).sum := by
  rw [getElem?_cumulative sizes i h]
  rfl

lemma getElem?_startsFrom (start : Nat) (sizes : List Nat) (i : Nat) :
    (startsFrom start sizes)[i]? = sizes[i]?.map fun _ => start + (sizes.take i).sum := by
  induction sizes generalizing start i with
  | nil => rfl
  | cons n sizes ih =>
    cases i with
    | zero => rfl
    | succ i =>
      simp only [startsFrom, List.getElem?_cons_succ, ih, List.take_succ_cons, List.sum_cons,
        Nat.add_assoc]

/-- A place of a block lies before every later block. -/
lemma position_lt_start (h : i < i') (hr : r < sizes[i]?.getD 0) :
    position sizes i r < (sizes.take i').sum := by
  have hle := sum_take_le sizes (Nat.succ_le_of_lt h)
  rw [sum_take_succ] at hle
  unfold position
  omega

lemma lt_length_of_lt (hr : r < sizes[i]?.getD 0) : i < sizes.length := by
  refine Nat.lt_of_not_le fun hi => ?_
  rw [List.getElem?_eq_none hi] at hr
  exact Nat.not_lt_zero r hr

lemma position_lt_sum (hr : r < sizes[i]?.getD 0) : position sizes i r < sizes.sum := by
  have h := position_lt_start (lt_length_of_lt hr) hr
  rwa [List.take_length] at h

lemma position_lt_position (h : i < i') (hr : r < sizes[i]?.getD 0) :
    position sizes i r < position sizes i' r' := by
  have hlt := position_lt_start h hr
  unfold position at *
  omega

/-- No two places share a position. -/
theorem position_inj (hr : r < sizes[i]?.getD 0) (hr' : r' < sizes[i']?.getD 0) :
    position sizes i r = position sizes i' r' ↔ i = i' ∧ r = r' := by
  constructor
  · intro h
    rcases Nat.lt_trichotomy i i' with hlt | rfl | hgt
    · exact absurd h (Nat.ne_of_lt (position_lt_position hlt hr))
    · exact ⟨rfl, Nat.add_left_cancel h⟩
    · exact absurd h (Nat.ne_of_gt (position_lt_position hgt hr'))
  · rintro ⟨rfl, rfl⟩
    rfl

/-- A position that lies inside a block is one of its places. -/
lemma place_of_start_le (hr : r < sizes[i]?.getD 0)
    (hle : (sizes.take i').sum ≤ position sizes i r)
    (hlt : position sizes i r - (sizes.take i').sum < sizes[i']?.getD 0) :
    i' = i ∧ position sizes i r - (sizes.take i').sum = r := by
  refine (position_inj hlt hr).1 ?_
  unfold position at *
  omega

/-- The positions of all blocks, one block after the other. -/
theorem map_range_sum {β : Type} (sizes : List Nat) (f : Nat → β) :
    (List.range sizes.sum).map f = sizes.zipIdx.flatMap fun (n, i) =>
      (List.range n).map fun r => f (position sizes i r) := by
  induction sizes generalizing f with
  | nil => rfl
  | cons n sizes ih =>
    rw [List.sum_cons, List.range_add, List.map_append, List.map_map, ih, List.zipIdx_cons,
      List.flatMap_cons]
    congr 1
    · simp [position]
    · rw [List.zipIdx_succ, List.flatMap_map]
      simp [position, Nat.add_assoc]

/-- Every position is that of some place. -/
theorem exists_position {n : Nat} (h : n < sizes.sum) :
    ∃ i r, r < sizes[i]?.getD 0 ∧ n = position sizes i r := by
  have hmem : n ∈ (List.range sizes.sum).map id := List.mem_map_of_mem (List.mem_range.2 h)
  rw [map_range_sum, List.mem_flatMap] at hmem
  obtain ⟨⟨m, i⟩, hm, hn⟩ := hmem
  obtain ⟨r, hr, rfl⟩ := List.mem_map.1 hn
  rw [List.mem_zipIdx_iff_getElem?] at hm
  exact ⟨i, r, by rw [hm]; exact List.mem_range.1 hr, rfl⟩

lemma position_succ (n : Nat) (sizes : List Nat) (i r : Nat) :
    position (n :: sizes) (i + 1) r = n + position sizes i r := by
  rw [position, position, List.take_succ_cons, List.sum_cons, Nat.add_assoc]

/-- A sum over all positions is the sum over the places of each block. -/
theorem sum_range_sum {M : Type} [AddCommMonoid M] (sizes : List Nat) (f : Nat → M) :
    ∑ n ∈ Finset.range sizes.sum, f n = ∑ i ∈ Finset.range sizes.length,
      ∑ r ∈ Finset.range (sizes[i]?.getD 0), f (position sizes i r) := by
  induction sizes generalizing f with
  | nil => rfl
  | cons n sizes ih =>
    rw [List.sum_cons, Finset.sum_range_add, ih, List.length_cons, Finset.sum_range_succ',
      add_comm]
    congr 1
    · simp only [List.getElem?_cons_succ, position_succ]
    · simp [position]

section Boundaries
variable {start stop : Nat} {offsets : List Nat}

lemma head?_cumulativeFrom (start : Nat) (sizes : List Nat) :
    (cumulativeFrom start sizes).head? = some start := by
  cases sizes <;> rfl

lemma getLast?_cumulativeFrom (start : Nat) (sizes : List Nat) :
    (cumulativeFrom start sizes).getLast? = some (start + sizes.sum) := by
  have hlast : (cumulativeFrom start sizes)[sizes.length]? = some (start + sizes.sum) := by
    rw [getElem?_cumulativeFrom start sizes _ (Nat.le_refl _), List.take_length]
    rfl
  rw [List.getLast?_eq_getElem?, length_cumulativeFrom]
  exact hlast

/-- A block that comes last ends behind all others. -/
lemma cumulative_concat (sizes : List Nat) (n : Nat) :
    cumulative (sizes ++ [n]) = cumulative sizes ++ [sizes.sum + n] := by
  have hfrom : ∀ start, cumulativeFrom start (sizes ++ [n]) =
      cumulativeFrom start sizes ++ [start + sizes.sum + n] := by
    induction sizes with
    | nil => exact fun _ => rfl
    | cons m sizes ih =>
      intro start
      rw [List.cons_append, cumulativeFrom, cumulativeFrom, ih, List.sum_cons, List.cons_append,
        Nat.add_assoc start m]
  rw [cumulative, hfrom, Nat.zero_add]
  rfl

/-- Boundaries never decrease. -/
lemma pairwise_cumulativeFrom (start : Nat) (sizes : List Nat) :
    (cumulativeFrom start sizes).Pairwise (· ≤ ·) ∧
      ∀ n ∈ cumulativeFrom start sizes, start ≤ n := by
  induction sizes generalizing start with
  | nil => simp [cumulativeFrom]
  | cons m sizes ih =>
    obtain ⟨hpairwise, hle⟩ := ih (start + m)
    have hstart : ∀ n ∈ cumulativeFrom (start + m) sizes, start ≤ n := fun n hn =>
      Nat.le_trans (Nat.le_add_right start m) (hle n hn)
    refine ⟨List.pairwise_cons.2 ⟨hstart, hpairwise⟩, fun n hn => ?_⟩
    rcases List.mem_cons.1 hn with rfl | hn
    · exact Nat.le_refl n
    · exact hstart n hn

/-- Of numbers that never decrease, those up to a bound are the first ones. -/
lemma le_iff_lt_length_takeWhile (h : offsets.Pairwise (· ≤ ·)) {k offset : Nat}
    (hk : offsets[k]? = some offset) (bound : Nat) :
    offset ≤ bound ↔ k < (offsets.takeWhile (· ≤ bound)).length := by
  induction offsets generalizing k with
  | nil => cases hk
  | cons n offsets ih =>
    obtain ⟨hle, hrest⟩ := List.pairwise_cons.1 h
    by_cases hn : n ≤ bound
    · rw [List.takeWhile_cons_of_pos (by simpa using hn), List.length_cons]
      cases k with
      | zero =>
        cases hk
        exact iff_of_true hn (Nat.succ_pos _)
      | succ k => rw [ih hrest hk, Nat.succ_lt_succ_iff]
    · rw [List.takeWhile_cons_of_neg (by simpa using hn)]
      refine iff_of_false (fun hoffset => hn ?_) (Nat.not_lt_zero k)
      rcases List.mem_cons.1 (List.mem_of_getElem? hk) with rfl | hmem
      · exact hoffset
      · exact (hle offset hmem).trans hoffset

/-- Numbers that never decrease are the boundaries of blocks. -/
theorem exists_cumulativeFrom (h : offsets.Pairwise (· ≤ ·)) (hstart : offsets.head? = some start) :
    ∃ sizes, offsets = cumulativeFrom start sizes := by
  induction offsets generalizing start with
  | nil => cases hstart
  | cons n offsets ih =>
    obtain rfl : start = n := (Option.some.inj hstart).symm
    obtain ⟨hle, hrest⟩ := List.pairwise_cons.1 h
    cases offsets with
    | nil => exact ⟨[], rfl⟩
    | cons stop rest =>
      obtain ⟨sizes, hsizes⟩ := ih hrest rfl
      have hstop : start + (stop - start) = stop :=
        Nat.add_sub_cancel' (hle stop List.mem_cons_self)
      refine ⟨(stop - start) :: sizes, ?_⟩
      rw [hsizes, cumulativeFrom, hstop]

/-- The boundaries at or before a place are those up to its block. -/
lemma length_takeWhile_cumulativeFrom (start : Nat) (hr : r < sizes[i]?.getD 0) :
    ((cumulativeFrom start sizes).takeWhile (· ≤ start + position sizes i r)).length = i + 1 := by
  induction sizes generalizing start i with
  | nil => exact absurd hr (Nat.not_lt_zero r)
  | cons n sizes ih =>
    rw [cumulativeFrom, List.takeWhile_cons_of_pos (by simp), List.length_cons]
    cases i with
    | zero =>
      -- the next boundary lies behind the place
      have hlt : r < n := hr
      have hnot : ¬ start + n ≤ start + r := by omega
      cases sizes <;> simp [cumulativeFrom, position, hnot]
    | succ i =>
      rw [position_succ, ← Nat.add_assoc, ih (start + n) hr]

end Boundaries

section Pieces
variable {β : Type}

/-- Lists laid out one behind the other have their entries at the places of the blocks. -/
lemma getElem?_flatten_position (xss : List (List β)) (hr : r < (xss.map List.length)[i]?.getD 0) :
    xss.flatten[position (xss.map List.length) i r]? = xss[i]?.bind (·[r]?) := by
  induction xss generalizing i with
  | nil => exact absurd hr (Nat.not_lt_zero r)
  | cons xs xss ih =>
    cases i with
    | zero =>
      have hlt : r < xs.length := hr
      simp [position, List.getElem?_append_left hlt]
    | succ i =>
      rw [List.map_cons, position_succ, List.flatten_cons, List.getElem?_append_right (by omega),
        Nat.add_sub_cancel_left, ih hr]
      rfl

/-- The pieces of a list between neighbouring boundaries. -/
lemma getElem?_slices (xs : List β) (offsets : List Nat) (i : Nat) :
    (slices xs offsets)[i]? = offsets[i]?.bind fun start =>
      offsets[i + 1]?.map fun stop => (xs.drop start).take (stop - start) := by
  induction offsets generalizing i with
  | nil => rfl
  | cons start offsets ih =>
    cases offsets with
    | nil => cases i <;> rfl
    | cons stop rest =>
      cases i with
      | zero => rfl
      | succ i => exact ih i

lemma length_slices (xs : List β) (offsets : List Nat) :
    (slices xs offsets).length = offsets.length - 1 := by
  induction offsets with
  | nil => rfl
  | cons start offsets ih =>
    cases offsets with
    | nil => rfl
    | cons stop rest => simpa [slices] using ih

lemma slices_cumulativeFrom_cons (xs : List β) (start n : Nat) (sizes : List Nat) :
    slices xs (cumulativeFrom start (n :: sizes)) =
      (xs.drop start).take n :: slices xs (cumulativeFrom (start + n) sizes) := by
  cases sizes <;> simp [cumulativeFrom, slices]

/-- The piece between two boundaries is what stands behind the blocks before. -/
lemma getElem?_slices_cumulativeFrom (xs : List β) (start : Nat) (sizes : List Nat) (i : Nat) :
    (slices xs (cumulativeFrom start sizes))[i]? =
      sizes[i]?.map fun n => (xs.drop (start + (sizes.take i).sum)).take n := by
  induction sizes generalizing start i with
  | nil => rfl
  | cons n sizes ih =>
    rw [slices_cumulativeFrom_cons]
    cases i with
    | zero => simp
    | succ i => simp [ih, Nat.add_assoc]

/-- The pieces of a list are given by what stands at the places of the blocks. -/
lemma slices_cumulative_eq {xs : List β} {f : Nat → Nat → β}
    (h : ∀ i r, r < sizes[i]?.getD 0 → xs[position sizes i r]? = some (f i r)) :
    slices xs (cumulative sizes) = (List.range sizes.length).map fun i =>
      (List.range (sizes[i]?.getD 0)).map (f i) := by
  apply List.ext_getElem?
  intro i
  rw [cumulative, getElem?_slices_cumulativeFrom, List.getElem?_map, Nat.zero_add]
  by_cases hi : i < sizes.length
  · have hsize : sizes[i]? = some (sizes[i]?.getD 0) := by
      rw [List.getElem?_eq_getElem hi]
      rfl
    rw [List.getElem?_range hi, hsize, Option.map_some, Option.map_some]
    congr 1
    apply List.ext_getElem?
    intro r
    rw [List.getElem?_take, List.getElem?_drop]
    by_cases hr : r < sizes[i]?.getD 0
    · rw [if_pos hr, List.getElem?_map, List.getElem?_range hr]
      exact h i r hr
    · rw [if_neg hr, List.getElem?_eq_none (by simpa using hr)]
  · rw [List.getElem?_eq_none (Nat.le_of_not_lt hi), List.getElem?_eq_none (by simpa using hi)]
    rfl

/-- Cutting at the boundaries undoes laying the pieces out. -/
theorem slices_flatten (xss : List (List β)) :
    slices xss.flatten (cumulative (xss.map List.length)) = xss := by
  -- the pieces that have been cut off already stand in front
  have hbehind : ∀ front : List β, slices (front ++ xss.flatten)
      (cumulativeFrom front.length (xss.map List.length)) = xss := by
    induction xss with
    | nil => exact fun _ => rfl
    | cons xs xss ih =>
      intro front
      have hrest := ih (front ++ xs)
      rw [List.append_assoc, List.length_append] at hrest
      rw [List.map_cons, slices_cumulativeFrom_cons, List.flatten_cons, hrest, List.drop_left,
        List.take_left]
  exact hbehind []

/-- Laying the pieces out undoes cutting at the boundaries. -/
theorem flatten_slices (xs : List β) (start : Nat) (sizes : List Nat) :
    (slices xs (cumulativeFrom start sizes)).flatten = (xs.drop start).take sizes.sum := by
  induction sizes generalizing start with
  | nil => simp [cumulativeFrom, slices]
  | cons n sizes ih =>
    rw [slices_cumulativeFrom_cons, List.flatten_cons, ih, List.sum_cons, List.take_add,
      List.drop_drop]

lemma map_length_slices {xs : List β} {start : Nat} {sizes : List Nat}
    (h : start + sizes.sum ≤ xs.length) :
    (slices xs (cumulativeFrom start sizes)).map List.length = sizes := by
  induction sizes generalizing start with
  | nil => rfl
  | cons n sizes ih =>
    rw [List.sum_cons] at h
    rw [slices_cumulativeFrom_cons, List.map_cons, ih (by omega)]
    congr 1
    rw [List.length_take, List.length_drop]
    omega

lemma paste_front (front behind values : List β) :
    paste (front ++ behind) front.length values =
      front ++ values ++ behind.drop values.length := by
  rw [paste, List.take_left, List.drop_length_add_append]

lemma length_paste {xs values : List β} {start : Nat} (h : start + values.length ≤ xs.length) :
    (paste xs start values).length = xs.length := by
  simp only [paste, List.length_append, List.length_take, List.length_drop]
  omega

/-- Pasting every list to where its block starts lays them out one behind the other. -/
lemma foldl_paste (z : β) (front : List β) (xss : List (List β)) :
    (xss.zip (cumulativeFrom front.length (xss.map List.length))).foldl
      (fun flat p => paste flat p.2 p.1)
      (front ++ List.replicate (xss.map List.length).sum z) = front ++ xss.flatten := by
  induction xss generalizing front with
  | nil => simp
  | cons xs xss ih =>
    have hrest := ih (front ++ xs)
    rw [List.length_append] at hrest
    rw [List.map_cons, cumulativeFrom, List.zip_cons_cons, List.foldl_cons, paste_front,
      List.sum_cons, List.drop_replicate, Nat.add_sub_cancel_left, hrest, List.flatten_cons,
      List.append_assoc]

end Pieces

end BlockSparse.Offsets
