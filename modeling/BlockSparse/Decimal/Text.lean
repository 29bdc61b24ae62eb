import BlockSparse.Decimal.Shortest

/-! Decimal text of binary floating-point numbers: the shortest digits that identify the number,
with a point for ordinary magnitudes and with an exponent for others. -/
namespace BlockSparse.Decimal

/-- The layout of a binary format: a sign bit, then exponent bits, then fraction bits. -/
structure BinaryFormat where
  fractionBits : Nat
  exponentBits : Nat

/-- Double precision. -/
def binary64 : BinaryFormat := ⟨52, 11⟩

/-- Single precision. -/
def binary32 : BinaryFormat := ⟨23, 8⟩

/-- What a bit pattern stands for. -/
inductive Decoded where
  | nan
  | infinite (negative : Bool)
  | zero (negative : Bool)
  /-- A nonzero number, given by the interval of its magnitude. -/
  | finite (negative : Bool) (magnitude : Interval)

namespace BinaryFormat

/-- The exponent of the numbers below the first binade. -/
def leastExponent (f : BinaryFormat) : Int :=
  2 - Nat.pow 2 (f.exponentBits - 1) - f.fractionBits

/-- What a bit pattern stands for in a format. -/
def decode (f : BinaryFormat) (bits : Nat) : Decoded :=
  let fraction := bits % Nat.pow 2 f.fractionBits
  let exponent := bits / Nat.pow 2 f.fractionBits % Nat.pow 2 f.exponentBits
  let negative := bits / Nat.pow 2 (f.fractionBits + f.exponentBits) % 2 = 1
  if exponent = Nat.pow 2 f.exponentBits - 1 then
    if fraction = 0 then .infinite negative else .nan
  else if exponent = 0 then
    if fraction = 0 then .zero negative
    else .finite negative (.ofBinary fraction f.leastExponent false)
  else .finite negative (.ofBinary (Nat.pow 2 f.fractionBits + fraction)
    (f.leastExponent + (exponent - 1 : Nat)) (fraction = 0 ∧ 1 < exponent))

end BinaryFormat

/-- The range of decimal exponents, those of the first digit, that are written with a point
alone. -/
structure Layout where
  leastPositional : Int
  greatestPositional : Int

/-- Numbers from one ten-thousandth to below ten to the sixteenth are written with a point. -/
def layout : Layout := ⟨-4, 15⟩

/-- The digits of a number without the zeros at their end, of which there are no more than `fuel`,
and the number of zeros left out. -/
def stripZeros : Nat → Nat → Nat × Nat
  | 0, n => (n, 0)
  | fuel + 1, n =>
    if n % 10 = 0 ∧ n ≠ 0 then
      let (d, zeros) := stripZeros fuel (n / 10)
      (d, zeros + 1)
    else (n, 0)

/-- The text of digits with the point after the first `point` of them. Whole numbers end in a zero
after the point. -/
def positional (ds : List Char) (point : Int) : List Char :=
  if point ≤ 0 then '0' :: '.' :: (List.replicate (-point).toNat '0' ++ ds)
  else if ds.length ≤ point.toNat then
    ds ++ List.replicate (point.toNat - ds.length) '0' ++ ['.', '0']
  else ds.take point.toNat ++ '.' :: ds.drop point.toNat

/-- An exponent as text, with a sign only if it is negative. -/
def exponentText (exponent : Int) : List Char :=
  if exponent < 0 then '-' :: Nat.toDigits 10 exponent.natAbs else Nat.toDigits 10 exponent.natAbs

/-- The text of digits with an exponent, and a point only before further digits. -/
def scientific (ds : List Char) (exponent : Int) : List Char :=
  let fraction := match ds.drop 1 with
    | [] => []
    | rest => '.' :: rest
  ds.take 1 ++ fraction ++ 'e' :: exponentText exponent

/-- The text of a positive decimal number. -/
def Digits.text (l : Layout) (d : Digits) : List Char :=
  let (n, zeros) := stripZeros (Nat.log2 d.digits + 1) d.digits
  let ds := Nat.toDigits 10 n
  let exponent := d.exponent + zeros + ds.length - 1
  if l.leastPositional ≤ exponent ∧ exponent ≤ l.greatestPositional then
    positional ds (exponent + 1)
  else scientific ds exponent

/-- The text of what a bit pattern stands for. -/
def Decoded.text (l : Layout) : Decoded → List Char
  | nan => ['N', 'a', 'N']
  | infinite negative => sign negative ++ ['i', 'n', 'f']
  | zero negative => sign negative ++ ['0', '.', '0']
  | finite negative magnitude => sign negative ++ magnitude.shortest.text l
where
  sign (negative : Bool) : List Char := if negative then ['-'] else []

example : (binary64.decode 0xc002000000000000).text layout = ['-', '2', '.', '2', '5'] := by
  decide +kernel
example : (binary64.decode 0x4341c37937e08000).text layout = ['1', 'e', '1', '6'] := by
  decide +kernel
example : (binary32.decode 0x3f800000).text layout = ['1', '.', '0'] := by decide +kernel

/-- The text of a double-precision number. -/
def ofFloat (x : Float) : String := String.ofList ((binary64.decode x.toBits.toNat).text layout)

/-- The text of a single-precision number. -/
def ofFloat32 (x : Float32) : String := String.ofList ((binary32.decode x.toBits.toNat).text layout)

end BlockSparse.Decimal
