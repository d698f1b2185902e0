/-! Binary numbers of 53 bits, and the shortest decimals that name them.

A number is a significand times a power of two. A decimal names the number that is nearest to it; of
two that are equally near, the one with the even significand. Among the decimals that name a number
the shortest is written, of these the nearest, and of two equally near ones the greater.
-/

set_option autoImplicit false

namespace Tracemark.Decimal

structure Binary64 where
  significand : Nat
  exponent : Int
  deriving DecidableEq, Repr

namespace Binary64

def leastFull : Nat := 1 <<< 52

def value (number : Binary64) : Rat := number.significand * (2 : Rat) ^ number.exponent

def roundHalfEven (value : Rat) : Nat :=
  let whole := value.floor.toNat
  let rest := value - whole
  if rest < 1 / 2 then whole else if 1 / 2 < rest then whole + 1 else whole + whole % 2

/-- The exponent at which a positive value has a significand of 53 bits, or the least exponent. -/
def exponentOf (value : Rat) : Int :=
  let low : Int := (value.num.natAbs.log2 : Int) - value.den.log2 - 53
  let fitting := if value / (2 : Rat) ^ low < (2 : Rat) ^ (53 : Nat) then low else low + 1
  max fitting (-1074)

def nearest? (value : Rat) : Option Binary64 :=
  if value = 0 then some ⟨0, 0⟩
  else
    let exponent := exponentOf value
    let significand := roundHalfEven (value / (2 : Rat) ^ exponent)
    let number : Binary64 :=
      if significand = 2 * leastFull then ⟨leastFull, exponent + 1⟩ else ⟨significand, exponent⟩
    if 971 < number.exponent then none else some number

/-- The number that `digits` times ten to the `scale` names. -/
def ofDecimal? (digits : Nat) (scale : Int) : Option Binary64 :=
  let magnitude := scale + (Nat.toDigits 10 digits).length
  -- Values that are out of reach by far are not computed.
  if digits = 0 ∨ magnitude < -400 then some ⟨0, 0⟩
  else if 400 < magnitude then none
  else nearest? (digits * (10 : Rat) ^ scale)

/-- Whether a value is rounded to a positive number. -/
def attracts (number : Binary64) (value : Rat) : Bool :=
  let quarter := (2 : Rat) ^ (number.exponent - 2)
  -- Below a power of two the numbers lie half as far apart.
  let narrow := number.significand = leastFull ∧ -1074 < number.exponent
  let low := (4 * number.significand - (if narrow then 1 else 2) : Int) * quarter
  let high := (4 * number.significand + 2 : Int) * quarter
  -- Values halfway to a neighbour are rounded to the even significand.
  if number.significand % 2 = 0 then low ≤ value && value ≤ high else low < value && value < high

/-- The number of digits before the decimal point of a positive value; for a value below one, less
the zeros behind the point. -/
def pointOf (value : Rat) : Int :=
  if 1 ≤ value then (Nat.toDigits 10 value.floor.toNat).length
  else
    1 - (((List.range 400).find? fun places => 1 ≤ value * (10 : Rat) ^ places).getD 400 : Int)

def withDigits? (number : Binary64) (count : Nat) : Option (Nat × Int) :=
  let value := number.value
  let scale := pointOf value - count
  let unit := (10 : Rat) ^ scale
  let below := (value / unit).floor.toNat
  let above := below + 1
  let takesBelow := number.attracts (below * unit)
  let takesAbove := number.attracts (above * unit)
  if takesBelow ∧ takesAbove then
    if value - below * unit < above * unit - value then some (below, scale) else some (above, scale)
  else if takesBelow then some (below, scale)
  else if takesAbove then some (above, scale)
  else none

def shortest (number : Binary64) : Nat × Int :=
  if number.significand = 0 then (0, 0)
  -- Seventeen digits always suffice.
  else (((List.range' 1 17).findSome? number.withDigits?).getD (0, 0))

end Binary64

def dropZeros (scale : Int) : (reversed : List Char) → List Char × Int
  | '0' :: rest => dropZeros (scale + 1) rest
  | reversed => (reversed.reverse, scale)

def positional (digits : Nat) (scale : Int) : List Char :=
  let (figures, scale) :=
    if digits = 0 then (['0'], 0) else dropZeros scale (Nat.toDigits 10 digits).reverse
  if 0 ≤ scale then figures ++ List.replicate scale.toNat '0' ++ ['.', '0']
  else
    let places := (-scale).toNat
    let padded := List.replicate (places + 1 - figures.length) '0' ++ figures
    padded.take (padded.length - places) ++ '.' :: padded.drop (padded.length - places)

end Tracemark.Decimal
