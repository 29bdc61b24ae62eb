/-! Positions of consecutive blocks of given sizes: where each block starts, and the same list
closed by the position at which the last block ends. -/
namespace BlockSparse.Offsets

/-- The total size of the blocks. -/
def total (sizes : List Nat) : Nat := sizes.foldr (· + ·) 0

/-- The position at which each of the blocks starts, the first one at `start`. -/
def startsFrom (start : Nat) : List Nat → List Nat
  | [] => []
  | n :: sizes => start :: startsFrom (start + n) sizes

/-- The starts of the blocks followed by the end of the last one. -/
def cumulativeFrom (start : Nat) : List Nat → List Nat
  | [] => [start]
  | n :: sizes => start :: cumulativeFrom (start + n) sizes

/-- The boundaries of blocks laid out from position zero, one more than there are blocks. -/
def cumulative (sizes : List Nat) : List Nat := cumulativeFrom 0 sizes

/-- The pieces of a list between consecutive boundaries. -/
def slices {β : Type} (xs : List β) : List Nat → List (List β)
  | start :: stop :: rest => (xs.drop start).take (stop - start) :: slices xs (stop :: rest)
  | _ => []

/-- Replaces the entries from a position on by as many others as are given. -/
def paste {β : Type} (xs : List β) (start : Nat) (values : List β) : List β :=
  xs.take start ++ values ++ xs.drop (start + values.length)

@[simp] theorem total_nil : total [] = 0 := rfl

@[simp] theorem total_cons (n : Nat) (sizes : List Nat) :
    total (n :: sizes) = n + total sizes := rfl

@[simp] theorem length_startsFrom (start : Nat) (sizes : List Nat) :
    (startsFrom start sizes).length = sizes.length := by
  induction sizes generalizing start with
  | nil => rfl
  | cons n sizes ih => simp [startsFrom, ih]

@[simp] theorem length_cumulativeFrom (start : Nat) (sizes : List Nat) :
    (cumulativeFrom start sizes).length = sizes.length + 1 := by
  induction sizes generalizing start with
  | nil => rfl
  | cons n sizes ih => simp [cumulativeFrom, ih]

@[simp] theorem length_cumulative (sizes : List Nat) :
    (cumulative sizes).length = sizes.length + 1 := length_cumulativeFrom 0 sizes

/-- Each boundary is the total size of the blocks before it. -/
theorem getElem?_cumulativeFrom (start : Nat) (sizes : List Nat) (k : Nat) (h : k ≤ sizes.length) :
    (cumulativeFrom start sizes)[k]? = some (start + total (sizes.take k)) := by
  induction sizes generalizing start k with
  | nil => obtain rfl : k = 0 := by simpa using h
           rfl
  | cons n sizes ih =>
    cases k with
    | zero => rfl
    | succ k =>
      simp only [cumulativeFrom, List.getElem?_cons_succ, List.take_succ_cons, total_cons]
      rw [ih _ _ (by simpa using h), Nat.add_assoc]

theorem getElem?_cumulative (sizes : List Nat) (k : Nat) (h : k ≤ sizes.length) :
    (cumulative sizes)[k]? = some (total (sizes.take k)) := by
  simpa [cumulative] using getElem?_cumulativeFrom 0 sizes k h

/-- The boundaries are the starts and the end of the last block. -/
theorem cumulativeFrom_eq (start : Nat) (sizes : List Nat) :
    cumulativeFrom start sizes = startsFrom start sizes ++ [start + total sizes] := by
  induction sizes generalizing start with
  | nil => rfl
  | cons n sizes ih =>
    rw [cumulativeFrom, startsFrom, total_cons, ih, Nat.add_assoc]
    rfl

example : cumulative [2, 0, 3] = [0, 2, 2, 5] := by decide
example : slices [10, 11, 12, 13, 14] [0, 2, 2, 5] = [[10, 11], [], [12, 13, 14]] := by decide
example : paste [10, 11, 12, 13, 14] 1 [0, 0] = [10, 0, 0, 13, 14] := by decide

end BlockSparse.Offsets
