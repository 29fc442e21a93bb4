/-!
# Shortest decimals

A binary64 number is written with the fewest decimal digits that still read back as the same
number. All decimals between the two midpoints to the neighbouring numbers read back as it; the
midpoints themselves do if its significand is even. For one digit, two digits and so on, the two
decimals next to the number are tried, and the first that lies between the midpoints is taken; if
both do, the nearer one, and of two that are equally near the greater one.

All arithmetic is exact, on natural numbers.

## Main definitions

* `Decimal` — a natural number of digits, scaled by a power of ten
* `Binary` — a natural number scaled by a power of two, with the decimals that read back as it
* `Binary.ofBits` — the number that 64 bits encode
* `Binary.shortest` — its shortest decimal
-/

namespace BulkLookup

/-- The number `digits · 10 ^ exponent`. -/
structure Decimal where
  digits : Nat
  exponent : Int
deriving DecidableEq, Repr

/-- The number `significand · 2 ^ exponent`, as a member of a set of such numbers. -/
structure Binary where
  significand : Nat
  exponent : Int
  /-- Whether the next number below is only half as far away as the next one above. -/
  isNarrowBelow : Bool
deriving DecidableEq, Repr

namespace Binary

/-- The finite number that 64 bits encode, but for its sign. -/
def ofBits (bits : UInt64) : Binary :=
  let fraction : Nat := bits.toNat % (1 <<< 52)
  let scale : Nat := bits.toNat / (1 <<< 52) % (1 <<< 11)
  if scale = 0 then ⟨fraction, -1074, false⟩
  else ⟨(1 <<< 52) + fraction, (scale : Int) - 1075, fraction = 0 && scale ≠ 1⟩

/-- Numerators over one denominator: of a number, of the midpoints below and above it. -/
structure Interval where
  number : Nat
  below : Nat
  above : Nat
  denominator : Nat
  /-- Whether the midpoints belong to the interval. -/
  isClosed : Bool

/-- The decimals that read back as a number. -/
def interval (b : Binary) : Interval :=
  let scale := 1 <<< (b.exponent - 2).toNat
  { number := 4 * b.significand * scale
    below := (4 * b.significand - if b.isNarrowBelow then 1 else 2) * scale
    above := (4 * b.significand + 2) * scale
    denominator := 1 <<< (2 - b.exponent).toNat
    isClosed := b.significand % 2 = 0 }

/-- Whether `digits · 10 ^ exponent` lies in an interval. -/
def Interval.contains (i : Interval) (d : Decimal) : Bool :=
  let value := d.digits * Nat.pow 10 d.exponent.toNat * i.denominator
  let scale := Nat.pow 10 (-d.exponent).toNat
  if i.isClosed then i.below * scale ≤ value && value ≤ i.above * scale
  else i.below * scale < value && value < i.above * scale

/-- How many zeros follow the decimal point of `number / denominator`, if that is below one; at
most `fuel`. -/
def leadingZeros (denominator : Nat) : (fuel number : Nat) → Nat
  | 0, _ => 0
  | fuel + 1, number =>
    if denominator ≤ 10 * number then 0 else leadingZeros denominator fuel (10 * number) + 1

/-- The exponent `k` for which the number lies between `10 ^ (k - 1)` and `10 ^ k`. -/
def Interval.magnitude (i : Interval) : Int :=
  if i.denominator ≤ i.number then (Nat.toDigits 10 (i.number / i.denominator)).length
  else -(leadingZeros i.denominator i.denominator.log2 i.number : Int)

/-- The decimal next to the number on the grid of multiples of `10 ^ exponent`, if one of the two
decimals around it lies in the interval; the greater of two that are equally near. -/
def Interval.nearest? (i : Interval) (exponent : Int) : Option Decimal :=
  let unit := Nat.pow 10 exponent.toNat * i.denominator
  let number := i.number * Nat.pow 10 (-exponent).toNat
  let lower : Decimal := ⟨number / unit, exponent⟩
  let upper : Decimal := ⟨number / unit + 1, exponent⟩
  match i.contains lower, i.contains upper with
  | true, true => some (if 2 * (number % unit) < unit then lower else upper)
  | true, false => some lower
  | false, true => some upper
  | false, false => none

/-- The shortest decimal that reads back as a number other than zero. Seventeen digits always
suffice. -/
def shortest (b : Binary) : Decimal :=
  let i := b.interval
  let tried := (List.range 17).findSome? fun (n : Nat) => i.nearest? (i.magnitude - 1 - (n : Int))
  tried.getD ⟨b.significand, 0⟩

end Binary

end BulkLookup
