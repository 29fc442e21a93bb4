import BulkLookup.Decimal.Shortest

/-!
# The text of decimals

A decimal is written out with a decimal point if it is neither very great nor very small, and with
a power of ten otherwise.

## Main definitions

* `Decimal.positional`, `Decimal.scientific` — the two notations
* `numberText` — the text of a binary64 number
-/

namespace BulkLookup

namespace Decimal

/-- The digits of a decimal without the zeros at the end, as a text. -/
def significantDigits (d : Decimal) : List Char :=
  ((Nat.toDigits 10 d.digits).reverse.dropWhile (· == '0')).reverse

/-- The exponent `k` for which the decimal lies between `10 ^ (k - 1)` and `10 ^ k`. -/
def magnitude (d : Decimal) : Int := (Nat.toDigits 10 d.digits).length + d.exponent

/-- Written out with a decimal point, and at least one digit on either side of it. -/
def positional (d : Decimal) : List Char :=
  let digits := d.significantDigits
  let whole := digits.take d.magnitude.toNat
  let padding := List.replicate (d.magnitude.toNat - digits.length) '0'
  let fraction := List.replicate (-d.magnitude).toNat '0' ++ digits.drop d.magnitude.toNat
  (if d.magnitude ≤ 0 then ['0'] else whole ++ padding) ++ '.' ::
    (if digits.length ≤ d.magnitude then ['0'] else fraction)

/-- Written with one digit before the point and a power of ten. -/
def scientific (d : Decimal) : List Char :=
  match d.significantDigits with
  | [] => ['0']
  | lead :: rest =>
    let exponent := d.magnitude - 1
    let point := if rest.isEmpty then [] else '.' :: rest
    lead :: point ++ 'e' :: (toString exponent).toList

end Decimal

/-- The text of a number: written out from `0.0001` on and below `10 ^ 16`, and else with a power
of ten. -/
def numberText (x : Float) : String :=
  if x.isNaN then "NaN" else
    let sign := if x.toBits >>> 63 = 0 then "" else "-"
    if x.isInf then sign ++ "inf"
    else if x == 0 then sign ++ "0.0"
    else
      let d := (Binary.ofBits x.toBits).shortest
      let isPlain := -4 < d.magnitude && d.magnitude ≤ 16
      sign ++ String.ofList (if isPlain then d.positional else d.scientific)

end BulkLookup
