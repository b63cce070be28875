import Peaks.Editor

/-!
# Numeric arrays

Arrays of numbers, all of one sort, read from nested rows of numbers.

- `NumericArray.ofNested`  : one double makes all numbers doubles, one whole number makes truth
  values whole numbers, and whole numbers too far apart for one machine word become doubles
- `NumericArray.peakMask`  : which entries are local maxima, all pairs of neighbours compared at
  once
- `Editor.loadArrays`      : a function from an array of arguments and one of values
-/

namespace Peaks

/-- One number of an array. -/
inductive Scalar
  | bool (b : Bool)
  | whole (n : Int)
  | double (x : Double)
  deriving DecidableEq, Repr

namespace Scalar

def number : Scalar → Number
  | .bool b => .whole (if b then 1 else 0)
  | .whole n => .whole n
  | .double x => .double x

def payload : Scalar → Payload
  | .bool b => .bool b
  | .whole n => .int n
  | .double x => .float x

def toWhole : Scalar → Scalar
  | .bool b => .whole (if b then 1 else 0)
  | s => s

def toDouble : Scalar → Scalar
  | .bool b => .double (Double.ofInt (if b then 1 else 0))
  | .whole n => .double (Double.ofInt n)
  | s => s

def isDouble : Scalar → Bool
  | .double _ => true
  | _ => false

def isWhole : Scalar → Bool
  | .whole _ => true
  | _ => false

/-- A whole number too large for a signed machine word. -/
def isWide : Scalar → Bool
  | .whole n => 0x8000000000000000 ≤ n
  | _ => false

def isNaN : Scalar → Bool
  | .double x => x.isNaN
  | _ => false

def lt (a b : Scalar) : Bool :=
  a.number.lt b.number

def eq (a b : Scalar) : Bool :=
  a.number.eq b.number

def le (a b : Scalar) : Bool :=
  a.lt b || a.eq b

/-- Sorting puts NaN after all other numbers. -/
def sortsAfter (a b : Scalar) : Bool :=
  b.lt a || (a.isNaN && !b.isNaN)

end Scalar

/-- Rows of rows of numbers. All rows at one depth have the same length. -/
inductive Nested
  | scalar (s : Scalar)
  | rows (items : List Nested)

namespace Nested

/-- The lengths along the axes. -/
def shape : Nested → List Nat
  | .scalar _ => []
  | .rows [] => [0]
  | .rows (item :: rest) => (rest.length + 1) :: item.shape

mutual

/-- All numbers from the first to the last. -/
def scalars : Nested → List Scalar
  | .scalar s => [s]
  | .rows items => allScalars items

def allScalars : List Nested → List Scalar
  | [] => []
  | item :: rest => scalars item ++ allScalars rest

end

end Nested

structure NumericArray where
  shape : List Nat
  scalars : List Scalar
  deriving Repr

namespace NumericArray

/-- Whether some whole numbers fit a signed machine word and others do not. -/
def straddles (scalars : List Scalar) : Bool :=
  scalars.any Scalar.isWide && scalars.any fun s => s.isWhole && !s.isWide

/-- Brings numbers to one sort. -/
def unify (scalars : List Scalar) : List Scalar :=
  if scalars.any Scalar.isDouble || straddles scalars then scalars.map Scalar.toDouble
  else if scalars.any Scalar.isWhole then scalars.map Scalar.toWhole
  else scalars

def ofNested (n : Nested) : NumericArray where
  shape := n.shape
  scalars := unify n.scalars

/-! ## Local maxima -/

/-- For each number, whether it is at least as great as the one before and the one after it. -/
def peakMaskAfter (left : Option Scalar) : List Scalar → List Bool
  | [] => []
  | s :: rest =>
      (left.all (·.le s) && rest.head?.all (·.le s)) :: peakMaskAfter (some s) rest

def peakMask (scalars : List Scalar) : List Bool :=
  peakMaskAfter none scalars

/-- The mask of an array, which must have one axis. -/
def peakMask? (a : NumericArray) : Except Fault (List Bool) :=
  match a.shape with
  | [_] => .ok (peakMask a.scalars)
  | shape => .error (.notOneDimensional shape)

/-! ## Columns of pairs -/

/-- Arguments with their values, if both arrays have one axis of the same length. -/
def columns? (arguments values : NumericArray) : Except Fault (List (Scalar × Scalar)) :=
  match arguments.shape, values.shape with
  | [m], [n] =>
      if m = n then .ok (arguments.scalars.zip values.scalars)
      else .error (.shapesDiffer [m] [n])
  | s, t => .error (.shapesDiffer s t)

/-- Pairs in stable order of their arguments. -/
def sortColumns (pairs : List (Scalar × Scalar)) : List (Scalar × Scalar) :=
  pairs.mergeSort fun p q => !p.1.sortsAfter q.1

/-- The last pair of each run of equal arguments. -/
def lastOfEach : List (Scalar × Scalar) → List (Scalar × Scalar)
  | p :: q :: rest => if p.1.eq q.1 then lastOfEach (q :: rest) else p :: lastOfEach (q :: rest)
  | pairs => pairs

end NumericArray

/-! ## Loading -/

namespace Editor

variable {σ : Type}

/-- A new object for a number of an array. -/
def makeObject (s : Scalar) : Attempt (Editor σ) Payload :=
  modifyGet fun e =>
    let (p, mint) := e.mint.object s.payload
    (p, { e with mint := mint })

/-- A cell for a payload, recorded at once. -/
def takeCell (p : Payload) : Attempt (Editor σ) Cell :=
  modifyGet fun e =>
    let (cell, pool, mint) := e.pool.cell e.mint p
    (cell, { e with pool := pool, mint := mint })

def takePoint (pair : Scalar × Scalar) : Attempt (Editor σ) Point := do
  let argument ← takeCell (← makeObject pair.1)
  let value ← takeCell (← makeObject pair.2)
  makePoint argument value

/-- Loads a function from two arrays; of equal arguments the last one wins. -/
def loadArrays (rules : Rules σ) (arguments values : NumericArray) : Attempt (Editor σ) Unit := do
  let pairs ← Attempt.ofExcept (NumericArray.columns? arguments values)
  let unique := NumericArray.lastOfEach (NumericArray.sortColumns pairs)
  let points ← unique.mapM takePoint
  let mask := NumericArray.peakMask (unique.map (·.2))
  let peaks := (points.zip mask).filterMap fun (p, isPeak) => if isPeak then some p else none
  adopt rules points peaks

end Editor

end Peaks
