import Peaks.Order.Basic
import Peaks.Point
import Peaks.StableSort

/-!
# Maxima in order

A list of points by decreasing value and, among tied values, by increasing argument.

- `MaximaIndex.compare`  : the order itself
- `MaximaIndex.position`, `MaximaIndex.find?` : searching, which compares and may fail
- `MaximaIndex.discard`  : removing one point by its number, which never compares
-/

namespace Peaks
namespace MaximaIndex

variable {σ : Type}

/-- Larger values first, then smaller arguments. -/
def compare (rules : Rules σ) (a b : Point) : Attempt σ Int := do
  let byValue ← rules.value b.value a.value
  if byValue ≠ 0 then
    return byValue
  rules.argument a.argument b.argument

/-- The first position whose entry does not come before the point. -/
def position (rules : Rules σ) (entries : List Point) (point : Point) : Attempt σ Nat :=
  Search.boundary (fun p => do return (← compare rules p point) < 0) entries

/-- The position of an entry tied with the point. -/
def find? (rules : Rules σ) (entries : List Point) (point : Point) : Attempt σ (Option Nat) := do
  let index ← position rules entries point
  match entries[index]? with
  | none => return none
  | some entry =>
      if (← compare rules entry point) == 0 then
        return some index
      else
        return none

/-- Asks for room before the entry goes in. -/
def insertAt (rules : Rules σ) (entries : List Point) (index : Nat) (point : Point) :
    Attempt σ (List Point) := do
  rules.allocate
  return entries.insertIdx index point

/-- Removes the first entry that is this very point. -/
def discard (entries : List Point) (point : Point) : List Point :=
  entries.eraseP (·.same point)

def sorted (rules : Rules σ) (points : List Point) : Attempt σ (List Point) :=
  StableSort.sort (compare rules) points

end MaximaIndex
end Peaks
