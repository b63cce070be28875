/-!
# Binary64 numbers

A `Double` is kept as its 64 bits and every operation is exact arithmetic on whole numbers followed
by one rounding step, so that nothing here depends on a floating point unit.

- `Double.view`     : a number as NaN, an infinity, or `± m · 2^e`
- `Double.ofRatio`  : the nearest double of a quotient, a half going to the even neighbour
- `Double.place?`   : where a number lies among all others; nowhere for NaN
- `Number`          : whole numbers and doubles compared by exact value
-/

namespace Peaks

/-- A binary64 number, known by its bits. -/
structure Double where
  bits : UInt64
  deriving DecidableEq, Repr, Inhabited

/-- A power of two. -/
def twoTo (k : Nat) : Nat :=
  Nat.pow 2 k

/-- A power of ten. -/
def tenTo (k : Nat) : Nat :=
  Nat.pow 10 k

namespace Double

/-! ## Reading the bits -/

/-- The least mantissa of a number with an exponent of its own. -/
def leadingBit : Nat := 0x10000000000000

def isNegative (x : Double) : Bool :=
  x.bits >>> 63 == 1

def exponentField (x : Double) : Nat :=
  ((x.bits >>> 52) &&& 0x7ff).toNat

def fractionField (x : Double) : Nat :=
  (x.bits &&& 0xfffffffffffff).toNat

/-- What the bits of a number say. A finite number is `± mantissa · 2^exponent`, with an exponent
of at least `-1074`. -/
inductive View
  | nan
  | infinite (negative : Bool)
  | finite (negative : Bool) (mantissa : Nat) (exponent : Int)
  deriving DecidableEq, Repr

def view (x : Double) : View :=
  if x.exponentField = 0x7ff then
    if x.fractionField = 0 then .infinite x.isNegative else .nan
  else if x.exponentField = 0 then
    .finite x.isNegative x.fractionField (-1074)
  else
    .finite x.isNegative (leadingBit + x.fractionField) (x.exponentField - 1075)

def isNaN (x : Double) : Bool :=
  match x.view with
  | .nan => true
  | _ => false

/-! ## Writing the bits -/

def signBit (negative : Bool) : UInt64 :=
  if negative then 0x8000000000000000 else 0

def zero (negative : Bool) : Double :=
  ⟨signBit negative⟩

def infinity (negative : Bool) : Double :=
  ⟨signBit negative ||| 0x7ff0000000000000⟩

/-- The number that an invalid operation gives. -/
def indefinite : Double :=
  ⟨0xfff8000000000000⟩

/-- A NaN as it leaves an operation. -/
def quiet (x : Double) : Double :=
  ⟨x.bits ||| 0x0008000000000000⟩

/-- The bits of `± mantissa · 2^exponent`, for a mantissa below `2^53` that is at least `2^52`
unless the exponent is the least one. Too large an exponent gives an infinity. -/
def pack (negative : Bool) (mantissa : Nat) (exponent : Int) : Double :=
  if mantissa < leadingBit then
    ⟨signBit negative ||| mantissa.toUInt64⟩
  else
    let field := (exponent + 1075).toNat
    if 0x7ff ≤ field then infinity negative
    else ⟨signBit negative ||| (field.toUInt64 <<< 52) ||| (mantissa - leadingBit).toUInt64⟩

/-- The quotient rounded to the nearest whole number, a half going to the even one. -/
def divideToEven (num den : Nat) : Nat :=
  let quotient := num / den
  let rest := num % den
  if 2 * rest < den then quotient
  else if den < 2 * rest then quotient + 1
  else quotient + quotient % 2

/-- The nearest double of `± num / den`, a half going to the even neighbour. -/
def ofRatio (negative : Bool) (num den : Nat) : Double :=
  if num = 0 then
    zero negative
  else
    let lead : Int := (num.log2 : Int) - den.log2
    let least : Int := max (lead - 53) (-1074)
    let scaled (e : Int) : Nat × Nat :=
      (num * twoTo (-e).toNat, den * twoTo e.toNat)
    let exponent :=
      if (scaled least).1 / (scaled least).2 < 2 * leadingBit then least else least + 1
    let mantissa := divideToEven (scaled exponent).1 (scaled exponent).2
    if mantissa = 2 * leadingBit then pack negative leadingBit (exponent + 1)
    else pack negative mantissa exponent

/-- The nearest double of a whole number; an infinity when it is out of range. -/
def ofInt (n : Int) : Double :=
  ofRatio (n < 0) n.natAbs 1

/-! ## Arithmetic -/

/-- `± mantissa · 2^exponent` in units of `2^-1074`, the finest of all finite doubles. -/
def units (negative : Bool) (mantissa : Nat) (exponent : Int) : Int :=
  let magnitude : Nat := mantissa * twoTo (exponent + 1074).toNat
  if negative then -(magnitude : Int) else magnitude

def neg (x : Double) : Double :=
  ⟨x.bits ^^^ 0x8000000000000000⟩

def add (x y : Double) : Double :=
  match x.view, y.view with
  | .nan, _ => x.quiet
  | _, .nan => y.quiet
  | .infinite s, .infinite t => if s = t then infinity s else indefinite
  | .infinite s, .finite .. => infinity s
  | .finite .., .infinite t => infinity t
  | .finite s m e, .finite t n f =>
      let total := units s m e + units t n f
      if total = 0 then zero (s && t)
      else ofRatio (total < 0) total.natAbs (twoTo 1074)

def sub (x y : Double) : Double :=
  if x.isNaN then x.quiet
  else if y.isNaN then y.quiet
  else add x y.neg

def mul (x y : Double) : Double :=
  match x.view, y.view with
  | .nan, _ => x.quiet
  | _, .nan => y.quiet
  | .infinite s, .infinite t => infinity (s != t)
  | .infinite s, .finite t n _ => if n = 0 then indefinite else infinity (s != t)
  | .finite s m _, .infinite t => if m = 0 then indefinite else infinity (s != t)
  | .finite s m e, .finite t n f =>
      ofRatio (s != t) (m * n * twoTo (e + f).toNat) (twoTo (-(e + f)).toNat)

/-- The quotient of two doubles; a zero divisor gives an infinity. -/
def div (x y : Double) : Double :=
  match x.view, y.view with
  | .nan, _ => x.quiet
  | _, .nan => y.quiet
  | .infinite _, .infinite _ => indefinite
  | .infinite s, .finite t _ _ => infinity (s != t)
  | .finite s _ _, .infinite t => zero (s != t)
  | .finite s m e, .finite t n f =>
      if n = 0 then
        if m = 0 then indefinite else infinity (s != t)
      else ofRatio (s != t) (m * twoTo (e - f).toNat) (n * twoTo (f - e).toNat)

/-! ## Order -/

/-- Where a number lies: below, on, or above the grid of multiples of `2^-1074`. -/
inductive Place
  | bottom
  | grid (units : Int)
  | top
  deriving DecidableEq, Repr

def Place.lt : Place → Place → Bool
  | .bottom, .bottom => false
  | .bottom, _ => true
  | .grid m, .grid n => m < n
  | .grid _, .top => true
  | _, _ => false

def place? (x : Double) : Option Place :=
  match x.view with
  | .nan => none
  | .infinite true => some .bottom
  | .infinite false => some .top
  | .finite s m e => some (.grid (units s m e))

/-- Whether a number is above zero; NaN is not. -/
def isPositive (x : Double) : Bool :=
  match x.view with
  | .nan => false
  | .infinite s => !s
  | .finite s m _ => !s && m != 0

end Double

/-! ## Numbers of either kind -/

/-- A whole number or a double. -/
inductive Number
  | whole (n : Int)
  | double (x : Double)
  deriving DecidableEq, Repr

namespace Number

def place? : Number → Option Double.Place
  | .whole n => some (.grid (n * twoTo 1074))
  | .double x => x.place?

/-- Exact `<`; false when either side is NaN. -/
def lt : Number → Number → Bool
  | .whole m, .whole n => m < n
  | a, b =>
      match a.place?, b.place? with
      | some p, some q => p.lt q
      | _, _ => false

/-- Exact equality; false when either side is NaN. -/
def eq : Number → Number → Bool
  | .whole m, .whole n => m == n
  | a, b =>
      match a.place?, b.place? with
      | some p, some q => p == q
      | _, _ => false

end Number

end Peaks
