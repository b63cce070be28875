import Peaks.Attempt

/-!
# Binary search

- `Search.boundary` : the first position of a list at which a probe answers "no", found by probing
  the middle of a shrinking window

With a probe that answers "yes" up to some place and "no" from there on, this is that place; with
any other probe it is still a position of the list.
-/

namespace Peaks
namespace Search

variable {σ α : Type}

/-- Searches the first `count` elements of the `window` that starts at position `offset`. The
element at half of them is probed; "yes" leaves what comes after it, "no" what comes before it. -/
def boundaryFrom (probe : α → Attempt σ Bool) (offset : Nat) :
    (count : Nat) → (window : List α) → Attempt σ Nat
  | 0, _ => pure offset
  | count + 1, window =>
      let half := (count + 1) / 2
      match window.drop half with
      | [] => pure offset
      | x :: rest => do
          if ← probe x then
            boundaryFrom probe (offset + half + 1) (count - half) rest
          else
            boundaryFrom probe offset half window
termination_by count => count
decreasing_by all_goals omega

/-- The first position at which the probe answers "no". -/
def boundary (probe : α → Attempt σ Bool) (xs : List α) : Attempt σ Nat :=
  boundaryFrom probe 0 xs.length xs

end Search
end Peaks
