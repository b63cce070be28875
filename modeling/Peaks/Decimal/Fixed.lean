import Peaks.Double

/-!
# Fixed decimal places

The text of a double with a fixed number of places after the point. The exact value is rounded once,
a half going to the even neighbour.

- `Decimal.Fixed.text` : plain digits
- `Decimal.Fixed.grouped` : whole numbers with a comma before every three digits
-/

namespace Peaks
namespace Decimal
namespace Fixed

/-- The magnitude in units of `10^-places`, rounded. -/
def scaled (mantissa : Nat) (exponent : Int) (places : Nat) : Nat :=
  Double.divideToEven (mantissa * twoTo exponent.toNat * tenTo places) (twoTo (-exponent).toNat)

/-- Digits of a whole number with at least `width` of them. -/
def paddedDigits (n width : Nat) : List Char :=
  let digits := Nat.toDigits 10 n
  List.replicate (width - digits.length) '0' ++ digits

/-- A comma before every three digits, counted from the right. -/
def groupThousands : List Char → List Char
  | [] => []
  | d :: rest =>
      if rest.length % 3 = 0 ∧ rest ≠ [] then d :: ',' :: groupThousands rest
      else d :: groupThousands rest

/-- The written magnitude, its whole part passed through `arrange`. -/
def magnitudeText (arrange : List Char → List Char) (places n : Nat) : String :=
  let digits := paddedDigits n (places + 1)
  let whole := digits.length - places
  String.ofList (arrange (digits.take whole)) ++
    (if places = 0 then "" else "." ++ String.ofList (digits.drop whole))

def render (arrange : List Char → List Char) (places : Nat) (x : Double) : String :=
  match x.view with
  | .nan => "nan"
  | .infinite s => if s then "-inf" else "inf"
  | .finite s m e =>
      (if s then "-" else "") ++ magnitudeText arrange places (scaled m e places)

def text (places : Nat) (x : Double) : String :=
  render id places x

/-- No places after the point, thousands separated by commas. -/
def grouped (x : Double) : String :=
  render groupThousands 0 x

end Fixed
end Decimal
end Peaks
