import Peaks.Order.Basic
import Peaks.Position

/-!
# Local maxima by one pass

A value is a local maximum when no neighbour is greater; ties count on both sides.

- `Scan.isPeak`         : the test against a left and a right neighbour, either of which may be
  missing
- `Scan.localMaxima`    : the local maxima of a list, in its order
- `Scan.isLocalMaximum` : the test at a signed position of a list of values
-/

namespace Peaks
namespace Scan

variable {σ α : Type}

/-- Whether a neighbour, if there is one, is not greater than the value. -/
def isBoundedBy (compare : Comparator σ) (value : Payload) : Option Payload → Attempt σ Bool
  | none => pure true
  | some neighbour => Comparator.lessEqual compare neighbour value

/-- The left neighbour is asked about first, and the right one only if the left one is not
greater. -/
def isPeak (compare : Comparator σ) (left : Option Payload) (value : Payload)
    (right : Option Payload) : Attempt σ Bool := do
  if ← isBoundedBy compare value left then
    isBoundedBy compare value right
  else
    return false

/-- The local maxima of a list whose first element has the given left neighbour. -/
def localMaximaAfter (compare : Comparator σ) (valueOf : α → Payload) (left : Option Payload) :
    List α → Attempt σ (List α)
  | [] => pure []
  | x :: rest => do
      let peak ← isPeak compare left (valueOf x) (rest.head?.map valueOf)
      let others ← localMaximaAfter compare valueOf (some (valueOf x)) rest
      return if peak then x :: others else others

def localMaxima (compare : Comparator σ) (valueOf : α → Payload) (xs : List α) :
    Attempt σ (List α) :=
  localMaximaAfter compare valueOf none xs

/-- The test at a position, which may count from the end for the value itself; what lies left and
right of it is found from the position as it is given. -/
def isLocalMaximum (compare : Comparator σ) (values : List Payload) (index : Int) :
    Attempt σ Bool := do
  let value ← Attempt.ofExcept (Position.get values index)
  if 0 < index then
    let left ← Attempt.ofExcept (Position.get values (index - 1))
    if !(← Comparator.lessEqual compare left value) then
      return false
  if index + 1 < values.length then
    let right ← Attempt.ofExcept (Position.get values (index + 1))
    Comparator.lessEqual compare right value
  else
    return true

end Scan
end Peaks
