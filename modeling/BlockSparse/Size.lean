import BlockSparse.Error
import BlockSparse.Offsets

/-! Arithmetic of sizes. A size is a number of 64 bits, and a sum or a product that needs more of
them ends the computation. What is held in memory, such as the cells of a grid or the entries of a
vector, is counted without a check, since there is never that much of it. -/
namespace BlockSparse.Size
open Offsets

/-- The least number that is too large for a size. -/
def bound : Nat := Nat.pow 2 64

/-- The result of an operation on sizes, if it is a size. -/
def check (operation : Operation) (n : Nat) : Except Error Nat :=
  if n < bound then .ok n else .error (.sizeOverflow operation)

/-- The sum of two sizes. -/
def add (m n : Nat) : Except Error Nat := check .add (m + n)

/-- The product of two sizes. -/
def mul (m n : Nat) : Except Error Nat := check .multiply (m * n)

/-- The sum of sizes, added up from the first to the last. -/
def sum (sizes : List Nat) : Except Error Nat := sizes.foldlM add 0

/-- The starts of consecutive blocks, the first one at `start`, closed by a list that may depend on
the end of the last block. A block is added before its start is given out. -/
def layOut (close : Nat → List Nat) (start : Nat) : List Nat → Except Error (List Nat)
  | [] => .ok (close start)
  | n :: sizes => do
    let next ← add start n
    let rest ← layOut close next sizes
    pure (start :: rest)

/-- The position at which each of the blocks starts, the first one at `start`. -/
def startsFrom (start : Nat) (sizes : List Nat) : Except Error (List Nat) :=
  layOut (fun _ => []) start sizes

/-- The boundaries of blocks laid out from position zero, one more than there are blocks. -/
def boundaries (sizes : List Nat) : Except Error (List Nat) := layOut (fun stop => [stop]) 0 sizes

variable {operation : Operation} {n start : Nat}

theorem check_of_lt (h : n < bound) : check operation n = .ok n := if_pos h

theorem check_of_le (h : bound ≤ n) : check operation n = .error (.sizeOverflow operation) :=
  if_neg (Nat.not_lt.2 h)

/-- Adding a block and going on to a checked end fails where checking that end does. -/
theorem bind_add {β : Type} {f : Nat → Except Error β} {g : Nat → β} {k : Nat}
    (h : start + n < bound → f (start + n) = g <$> check .add (start + n + k)) :
    add start n >>= f = g <$> check .add (start + n + k) := by
  by_cases hn : start + n < bound
  · rw [add, check_of_lt hn]
    exact h hn
  · have hn : bound ≤ start + n := Nat.le_of_not_lt hn
    rw [add, check_of_le hn, check_of_le (Nat.le_trans hn (Nat.le_add_right ..))]
    rfl

/-- Adding up sizes comes to one check of what they add up to. -/
theorem foldlM_add (h : start < bound) (sizes : List Nat) :
    sizes.foldlM add start = check .add (start + total sizes) := by
  induction sizes generalizing start with
  | nil => exact (check_of_lt h).symm
  | cons n sizes ih =>
    rw [List.foldlM_cons, total_cons, ← Nat.add_assoc]
    simpa using bind_add (g := id) fun hn => by simpa using ih hn

theorem sum_eq (sizes : List Nat) : sum sizes = check .add (total sizes) := by
  rw [sum, foldlM_add (by decide), Nat.zero_add]

theorem sum_of_lt {sizes : List Nat} (h : total sizes < bound) : sum sizes = .ok (total sizes) :=
  (sum_eq sizes).trans (check_of_lt h)

theorem sum_of_le {sizes : List Nat} (h : bound ≤ total sizes) :
    sum sizes = .error (.sizeOverflow .add) := (sum_eq sizes).trans (check_of_le h)

/-- Blocks can be laid out exactly if the end of the last one is a size. -/
theorem layOut_eq (close : Nat → List Nat) (h : start < bound) (sizes : List Nat) :
    layOut close start sizes = (fun stop => Offsets.startsFrom start sizes ++ close stop) <$>
      check .add (start + total sizes) := by
  induction sizes generalizing start with
  | nil =>
    rw [total_nil, Nat.add_zero, check_of_lt h]
    rfl
  | cons n sizes ih =>
    rw [layOut, total_cons, ← Nat.add_assoc]
    refine bind_add fun hn => ?_
    rw [ih hn]
    cases check .add (start + n + total sizes) <;> rfl

theorem startsFrom_of_lt {sizes : List Nat} (h : total sizes < bound) :
    startsFrom 0 sizes = .ok (Offsets.startsFrom 0 sizes) := by
  rw [startsFrom, layOut_eq _ (by decide), Nat.zero_add, check_of_lt h]
  exact congrArg Except.ok (List.append_nil _)

theorem boundaries_of_lt {sizes : List Nat} (h : total sizes < bound) :
    boundaries sizes = .ok (cumulative sizes) := by
  rw [boundaries, layOut_eq _ (by decide), cumulative, cumulativeFrom_eq, Nat.zero_add,
    check_of_lt h]
  rfl

theorem boundaries_of_le {sizes : List Nat} (h : bound ≤ total sizes) :
    boundaries sizes = .error (.sizeOverflow .add) := by
  rw [boundaries, layOut_eq _ (by decide), Nat.zero_add, check_of_le h]
  rfl

example : boundaries [18446744073709551615, 0] =
    .ok [0, 18446744073709551615, 18446744073709551615] := rfl
example : boundaries [18446744073709551615, 1] = .error (.sizeOverflow .add) := rfl

end BlockSparse.Size
