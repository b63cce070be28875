import Peaks.Order.Basic
import Peaks.Point
import Peaks.StableSort

/-!
# Points by argument

A list of points in increasing order of their arguments, searched by a comparison that may fail.
Several points may be tied; a new one goes after all it is tied with.

- `PointIndex.locate`         : the first point tied with an argument, and its position
- `PointIndex.insertionIndex` : the position after the last point that is not greater
- `PointIndex.lastOfEach`     : one point for each run of tied neighbours
-/

namespace Peaks
namespace PointIndex

variable {σ : Type}

/-- The first position whose point does not come before the argument. -/
def lowerBound (compare : Comparator σ) (points : List Point) (argument : Payload) :
    Attempt σ Nat :=
  Search.boundary (fun p => do return (← compare p.argument argument) < 0) points

/-- The position after the last point that does not come after the argument. -/
def upperBound (compare : Comparator σ) (points : List Point) (argument : Payload) :
    Attempt σ Nat :=
  Search.boundary (fun p => do return !decide ((← compare argument p.argument) < 0)) points

/-- The first point tied with an argument, with its position. -/
def locate (compare : Comparator σ) (points : List Point) (argument : Payload) :
    Attempt σ (Option (Nat × Point)) := do
  let index ← lowerBound compare points argument
  match points[index]? with
  | none => return none
  | some point =>
      if (← compare point.argument argument) == 0 then
        return some (index, point)
      else
        return none

def find? (compare : Comparator σ) (points : List Point) (argument : Payload) :
    Attempt σ (Option Nat) := do
  return (← locate compare points argument).map (·.1)

/-- Where a new point goes. -/
def insertionIndex (compare : Comparator σ) (points : List Point) (point : Point) :
    Attempt σ Nat :=
  upperBound compare points point.argument

/-- The list with a new point, and the position it got. -/
def insert (compare : Comparator σ) (points : List Point) (point : Point) :
    Attempt σ (Nat × List Point) := do
  let index ← insertionIndex compare points point
  return (index, points.insertIdx index point)

/-! ## Bulk loading -/

/-- Points in stable order of their arguments. -/
def sorted (compare : Comparator σ) (points : List Point) : Attempt σ (List Point) :=
  StableSort.sort (fun p q => compare p.argument q.argument) points

/-- Goes on after `latest`, which the next point replaces if it is tied with it. -/
def lastOfEachAfter (compare : Comparator σ) (latest : Point) : List Point → Attempt σ (List Point)
  | [] => pure [latest]
  | p :: rest => do
      if ← Comparator.equivalent compare latest.argument p.argument then
        lastOfEachAfter compare p rest
      else
        return latest :: (← lastOfEachAfter compare p rest)

/-- The last point of each run of tied neighbours. -/
def lastOfEach (compare : Comparator σ) : List Point → Attempt σ (List Point)
  | [] => pure []
  | p :: rest => lastOfEachAfter compare p rest

end PointIndex
end Peaks
