/-! The fewest decimal digits that identify a number among its binary neighbours. A positive binary
number is `m * 2 ^ q`; every real between the midpoints to its two neighbours rounds to it, the
midpoints themselves only if `m` is even. On the grid of each power of ten the two neighbours of the
number are tested, and the first grid with a point in that interval wins; of two such points the
nearer one is taken, and the upper one if they are equally near. -/
namespace BlockSparse.Decimal

/-- The reals `low / den` to `high / den` that round to the number `mid / den`. -/
structure Interval where
  low : Nat
  mid : Nat
  high : Nat
  den : Nat
  /-- Whether the two ends round to the number as well. -/
  closed : Bool

/-- The interval of `m * 2 ^ q`. The lower neighbour is only half as far away when `m` is the least
significand of its binade. -/
def Interval.ofBinary (m : Nat) (q : Int) (leastOfBinade : Bool) : Interval :=
  let up := Nat.pow 2 (q - 2).toNat
  let down := Nat.pow 2 (2 - q).toNat
  { low := (4 * m - if leastOfBinade then 1 else 2) * up
    mid := 4 * m * up
    high := (4 * m + 2) * up
    den := down
    closed := m % 2 = 0 }

/-- A decimal number `digits * 10 ^ exponent`. -/
structure Digits where
  digits : Nat
  exponent : Int
  deriving DecidableEq

/-- The numerator and the denominator of `digits * 10 ^ exponent`. -/
def Digits.fraction (d : Digits) : Nat × Nat :=
  (d.digits * Nat.pow 10 d.exponent.toNat, Nat.pow 10 (-d.exponent).toNat)

namespace Interval

/-- Whether a decimal number rounds to the number of the interval. -/
def contains (i : Interval) (d : Digits) : Bool :=
  let (num, den) := d.fraction
  if i.closed then i.low * den ≤ num * i.den ∧ num * i.den ≤ i.high * den
  else i.low * den < num * i.den ∧ num * i.den < i.high * den

/-- The distance between a decimal number and the number of the interval, times both
denominators. -/
def distance (i : Interval) (d : Digits) : Nat :=
  let (num, den) := d.fraction
  (num * i.den - i.mid * den) + (i.mid * den - num * i.den)

/-- The greatest point of the grid of a power of ten that is not above the number. -/
def floorOn (i : Interval) (exponent : Int) : Digits :=
  ⟨i.mid * Nat.pow 10 (-exponent).toNat / (i.den * Nat.pow 10 exponent.toNat), exponent⟩

/-- The point of the grid that stands for the number, if one of its two neighbours there does. -/
def pointOn (i : Interval) (exponent : Int) : Option Digits :=
  let below := i.floorOn exponent
  let above : Digits := ⟨below.digits + 1, exponent⟩
  match i.contains below, i.contains above with
  | true, true => some (if i.distance below < i.distance above then below else above)
  | true, false => some below
  | false, true => some above
  | false, false => none

/-- The number of zeros between the point and the first digit of a fraction below one. -/
def leadingZeros (den : Nat) : Nat → Nat → Nat
  | 0, _ => 0
  | fuel + 1, num => if den ≤ num * 10 then 0 else leadingZeros den fuel (num * 10) + 1

/-- The exponent `k` with `10 ^ (k - 1) ≤ x < 10 ^ k` for the number `x` of the interval. -/
def magnitude (i : Interval) : Int :=
  if i.den ≤ i.mid then (Nat.toDigits 10 (i.mid / i.den)).length
  else -(leadingZeros i.den (Nat.log2 i.den + 1) i.mid : Int)

/-- The point on the first of the grids with the given numbers of digits that has one. -/
def firstPoint (i : Interval) : List Nat → Option Digits
  | [] => none
  | n :: counts =>
    match i.pointOn (i.magnitude - n) with
    | some d => some d
    | none => firstPoint i counts

/-- The shortest decimal number that rounds to the number of the interval. Seventeen digits are
always enough. -/
def shortest (i : Interval) : Digits :=
  (i.firstPoint ((List.range 17).map (· + 1))).getD (i.floorOn (i.magnitude - 17))

end Interval

example : (Interval.ofBinary 1 (-1074) false).shortest = ⟨5, -324⟩ := by decide +kernel
example : (Interval.ofBinary 0x1999999999999a (-56) false).shortest = ⟨1, -1⟩ := by decide +kernel

end BlockSparse.Decimal
