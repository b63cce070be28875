import Peaks.Attempt

/-!
# Signed positions

A position in a list may be negative and then counts from the end.

- `Position.resolve?` : the position from the front, if it lies in the list
- `Position.get`, `Position.pop` : reading and removing, with the faults of positions outside
- `Position.insert` : a position outside the list means its nearer end

Positions are given as machine words. No list is long enough for a position that fits none to lie in
it, and such a position has faults of its own.
-/

namespace Peaks
namespace Position

variable {α : Type}

def resolve? (length : Nat) (index : Int) : Option Nat :=
  let fromFront := if index < 0 then index + length else index
  if 0 ≤ fromFront ∧ fromFront < length then some fromFront.toNat else none

/-- Whether a position fits a signed machine word. -/
def fits (index : Int) : Bool :=
  -0x8000000000000000 ≤ index && index < 0x8000000000000000

def get (xs : List α) (index : Int) : Except Fault α :=
  match (resolve? xs.length index).bind (xs[·]?) with
  | some x => .ok x
  | none => .error (if fits index then .indexOutOfRange else .indexTooWide)

/-- The element at a position and the list without it. -/
def pop (xs : List α) (index : Int) : Except Fault (α × List α) :=
  match resolve? xs.length index with
  | some i =>
      match xs[i]? with
      | some x => .ok (x, xs.eraseIdx i)
      | none => .error .popOutOfRange
  | none =>
      .error
        (if !fits index then .positionTooWide
        else if xs.isEmpty then .popFromEmpty
        else .popOutOfRange)

def insert (xs : List α) (index : Int) (x : α) : Except Fault (List α) :=
  if fits index then
    let fromFront := if index < 0 then index + xs.length else index
    .ok (xs.insertIdx (min fromFront.toNat xs.length) x)
  else
    .error .positionTooWide

end Position
end Peaks
