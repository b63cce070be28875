import Peaks.Search

/-!
# Stable sorting

A stable sort by a three-way comparison that may fail. The longest leading run is taken as it is, or
turned around if it falls strictly; every further element is put after the last one that is not
greater, found by binary search.

- `StableSort.leadingRun` : the sorted leading run and what is left
- `StableSort.sort`       : the sorted list
-/

namespace Peaks
namespace StableSort

variable {σ α : Type}

/-- Whether the first element comes strictly before the second. -/
def precedes (compare : α → α → Attempt σ Int) (x y : α) : Attempt σ Bool := do
  return (← compare x y) < 0

/-- Extends a run backwards: `run` holds what was taken so far, the latest first. The run goes on
while each next element precedes the latest one exactly if `falling`. -/
def takeRun (compare : α → α → Attempt σ Int) (falling : Bool) (latest : α) (run : List α) :
    List α → Attempt σ (List α × List α)
  | [] => pure (latest :: run, [])
  | x :: rest => do
      if (← precedes compare x latest) == falling then
        takeRun compare falling x (latest :: run) rest
      else
        return (latest :: run, x :: rest)

/-- The longest leading run, in sorted order, and the rest of the list. -/
def leadingRun (compare : α → α → Attempt σ Int) : List α → Attempt σ (List α × List α)
  | [] => pure ([], [])
  | [x] => pure ([x], [])
  | x :: y :: rest => do
      let falling ← precedes compare y x
      let (run, others) ← takeRun compare falling y [x] rest
      return (if falling then run else run.reverse, others)

/-- Puts an element after all sorted ones that are not greater. -/
def insert (compare : α → α → Attempt σ Int) (sorted : List α) (x : α) : Attempt σ (List α) := do
  let position ← Search.boundary (fun y => do return !(← precedes compare x y)) sorted
  return sorted.insertIdx position x

def insertAll (compare : α → α → Attempt σ Int) (sorted : List α) : List α → Attempt σ (List α)
  | [] => pure sorted
  | x :: rest => do
      insertAll compare (← insert compare sorted x) rest

def sort (compare : α → α → Attempt σ Int) (xs : List α) : Attempt σ (List α) := do
  let (run, rest) ← leadingRun compare xs
  insertAll compare run rest

end StableSort
end Peaks
