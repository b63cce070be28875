import Peaks.MaximaIndex
import Peaks.Position

/-!
# Staged changes of the maxima

The changes that one edit makes to the maxima are staged. Points that become maxima go in at once
and are remembered; points that cease to be are only marked. While failing is still possible the
marked positions are resolved; after that a commit removes them, or a rollback takes the insertions
out again, and neither of the two compares anything.

- `Staging.insert`, `Staging.defer`, `Staging.prepare` : each either happens as a whole or not at
  all
- `Staging.commit`, `Staging.rollback` : the two ends
- `Staging.attemptAll` : steps in turn up to the first that fails
-/

namespace Peaks

structure Staging where
  maxima : List Point
  /-- The points put in so far, the latest first. -/
  inserted : List Point := []
  /-- The points to be removed, in the order they were marked. -/
  doomed : List Point := []
  /-- The positions to be removed, from the highest down. -/
  positions : List Nat := []
  deriving Repr

namespace Staging

variable {σ : Type}

/-- Nothing staged yet. -/
def start (maxima : List Point) : Staging :=
  { maxima := maxima }

def insert (rules : Rules σ) (point : Point) (s : Staging) : Attempt σ Staging := do
  let index ← MaximaIndex.position rules s.maxima point
  let maxima ← MaximaIndex.insertAt rules s.maxima index point
  return { s with maxima := maxima, inserted := point :: s.inserted }

/-- Marks a point for removal, if it is there by then. -/
def defer (point : Point) (s : Staging) : Staging :=
  { s with doomed := s.doomed ++ [point] }

/-- The positions of all points that have an entry. -/
def resolve (rules : Rules σ) (maxima : List Point) : List Point → Attempt σ (List Nat)
  | [] => pure []
  | p :: rest => do
      let found ← MaximaIndex.find? rules maxima p
      let others ← resolve rules maxima rest
      return found.toList ++ others

/-- Puts a position among others that stand from the highest down. -/
def insertDescending (position : Nat) : List Nat → List Nat
  | [] => [position]
  | p :: rest =>
      if p ≤ position then position :: p :: rest else p :: insertDescending position rest

def descending (positions : List Nat) : List Nat :=
  positions.foldr insertDescending []

def prepare (rules : Rules σ) (s : Staging) : Attempt σ Staging := do
  let positions ← resolve rules s.maxima s.doomed
  return { s with positions := descending positions }

/-! ## The two ends -/

/-- Removes positions one after another; a position that is not there stops it. -/
def popAll : List Nat → List Point → List Point × Option Fault
  | [], entries => (entries, none)
  | p :: rest, entries =>
      match Position.pop entries p with
      | .ok (_, entries) => popAll rest entries
      | .error fault => (entries, some fault)

/-- The maxima without the resolved positions. -/
def commit (s : Staging) : List Point × Option Fault :=
  popAll s.positions s.maxima

/-- The maxima without the insertions, which are taken out from the latest to the first. -/
def rollback (s : Staging) : Staging :=
  { s with maxima := s.inserted.foldl MaximaIndex.discard s.maxima, inserted := [] }

/-! ## Several steps -/

/-- Runs steps in turn. A step that fails ends this; what was staged before it stays staged. -/
def attemptAll : List (Staging → Attempt σ Staging) → Staging → Attempt σ (Staging × Option Fault)
  | [], s => pure (s, none)
  | step :: rest, s => do
      match ← (step s).settle with
      | .ok s => attemptAll rest s
      | .error fault => return (s, some fault)

end Staging

end Peaks
