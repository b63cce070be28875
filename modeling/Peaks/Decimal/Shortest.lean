import Peaks.Double

/-!
# Shortest decimal text

The text of a double with the fewest significant digits that read back as the same double.

- `Decimal.shortest` : those digits and the power of ten of the first one
- `Decimal.Shortest.text` : the written form, positional from `1e-4` up to below `1e16`
-/

namespace Peaks
namespace Decimal

/-- Significant digits, without trailing zeros, and the power of ten of the first of them. -/
structure Significand where
  digits : List Char
  exponent : Int
  deriving DecidableEq, Repr

def dropTrailingZeros (digits : List Char) : List Char :=
  (digits.reverse.dropWhile (· == '0')).reverse

/-- The digits of a positive whole number times `10^step`. -/
def Significand.ofScaled (n : Nat) (step : Int) : Significand :=
  let digits := Nat.toDigits 10 n
  { digits := dropTrailingZeros digits, exponent := step + digits.length - 1 }

/-- A positive quotient `num / den`. -/
structure Ratio where
  num : Nat
  den : Nat

/-- `mantissa · 2^exponent`. -/
def Ratio.ofBinary (mantissa : Nat) (exponent : Int) : Ratio :=
  { num := mantissa * twoTo exponent.toNat, den := twoTo (-exponent).toNat }

/-- The quotient divided by `10^step`. -/
def Ratio.overTen (r : Ratio) (step : Int) : Ratio :=
  { num := r.num * tenTo (-step).toNat, den := r.den * tenTo step.toNat }

/-- Whether `10^p` is at most the quotient. -/
def Ratio.reachesTen (r : Ratio) (p : Int) : Bool :=
  let s := r.overTen p
  s.den ≤ s.num

/-- The power of ten of the leading decimal digit of a positive quotient. -/
def Ratio.leadingTen (r : Ratio) : Int :=
  let guess : Int := ((r.num.log2 : Int) - r.den.log2) * 30103 / 100000
  if r.reachesTen (guess + 1) then guess + 1
  else if r.reachesTen guess then guess
  else guess - 1

/-- The reals that round to one double: between two bounds, which belong to it or not. -/
structure RoundingInterval where
  value : Ratio
  lower : Ratio
  upper : Ratio
  closed : Bool

/-- All reals nearer to `mantissa · 2^exponent` than to any other double. Below a power of two the
next double is only half as far away. -/
def RoundingInterval.of (mantissa : Nat) (exponent : Int) : RoundingInterval :=
  let below := if mantissa = Double.leadingBit ∧ -1074 < exponent then 1 else 2
  { value := Ratio.ofBinary (4 * mantissa) (exponent - 2)
    lower := Ratio.ofBinary (4 * mantissa - below) (exponent - 2)
    upper := Ratio.ofBinary (4 * mantissa + 2) (exponent - 2)
    closed := mantissa % 2 == 0 }

/-- Whether `n · 10^step` rounds to the double. -/
def RoundingInterval.holds (i : RoundingInterval) (n : Nat) (step : Int) : Bool :=
  let low := i.lower.overTen step
  let high := i.upper.overTen step
  if i.closed then low.num ≤ n * low.den && n * high.den ≤ high.num
  else low.num < n * low.den && n * high.den < high.num

/-- On the grid of multiples of `10^step`, the neighbour of the value that reads back, the nearer
one if both do, and of two equally near the even one. -/
def RoundingInterval.onGrid? (i : RoundingInterval) (step : Int) : Option Nat :=
  let v := i.value.overTen step
  let down := v.num / v.den
  let twice := 2 * (v.num % v.den)
  match i.holds down step, i.holds (down + 1) step with
  | false, false => none
  | true, false => some down
  | false, true => some (down + 1)
  | true, true =>
      if twice < v.den then some down
      else if v.den < twice then some (down + 1)
      else some (down + down % 2)

/-- Tries grids with one more digit each, from the finest number of digits still to go. -/
def RoundingInterval.search (i : RoundingInterval) (lead : Int) :
    (remaining tried : Nat) → Significand
  | 0, tried =>
      let step := lead - tried
      let v := i.value.overTen step
      Significand.ofScaled (v.num / v.den) step
  | remaining + 1, tried =>
      let step := lead - tried
      match i.onGrid? step with
      | some n => Significand.ofScaled n step
      | none => search i lead remaining (tried + 1)

/-- The fewest digits that read back as `mantissa · 2^exponent`, for a mantissa that is not zero. -/
def shortest (mantissa : Nat) (exponent : Int) : Significand :=
  let interval := RoundingInterval.of mantissa exponent
  interval.search interval.value.leadingTen 17 0

namespace Shortest

/-! ## Written form -/

/-- The exponent has a sign and at least two digits. -/
def exponentText (e : Int) : String :=
  let digits := Nat.toDigits 10 e.natAbs
  let padded := if digits.length < 2 then '0' :: digits else digits
  String.ofList ((if e < 0 then '-' else '+') :: padded)

/-- Positional notation runs from a leading power of `-4` up to `15`; a whole number keeps one zero
after the point. Beyond, one digit stands before the point and an exponent follows. -/
def significandText (s : Significand) : String :=
  if s.exponent < -4 ∨ 16 ≤ s.exponent then
    match s.digits with
    | [] => "0.0"
    | [d] => String.ofList [d, 'e'] ++ exponentText s.exponent
    | d :: rest => String.ofList (d :: '.' :: rest ++ ['e']) ++ exponentText s.exponent
  else if s.exponent < 0 then
    "0." ++ String.ofList (List.replicate (-s.exponent - 1).toNat '0' ++ s.digits)
  else
    let whole := s.exponent.toNat + 1
    let padded := s.digits ++ List.replicate (whole - s.digits.length) '0'
    let rest := padded.drop whole
    String.ofList (padded.take whole) ++ "." ++ (if rest.isEmpty then "0" else String.ofList rest)

def text (x : Double) : String :=
  match x.view with
  | .nan => "nan"
  | .infinite s => if s then "-inf" else "inf"
  | .finite s m e =>
      (if s then "-" else "") ++ (if m = 0 then "0.0" else significandText (shortest m e))

end Shortest

end Decimal
end Peaks
