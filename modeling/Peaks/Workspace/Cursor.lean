import Peaks.Store

/-!
# Cursors

A cursor walks over the points or the maxima of a store and notices when the store has changed since
the walk began.

- `Cursor.start` : at the front, with the version of that moment
- `Cursor.next`  : the next point, the end, or the fault that ends the walk
-/

namespace Peaks

/-- Which of the two lists of a store is meant. -/
inductive Listing
  | points
  | maxima
  deriving DecidableEq, Repr

def Listing.of : Listing → Store → List Point
  | .points, s => s.points
  | .maxima, s => s.maxima

structure Cursor where
  holding : Nat
  listing : Listing
  version : Nat
  index : Nat := 0
  finished : Bool := false
  deriving DecidableEq, Repr

namespace Cursor

def start (holding : Nat) (listing : Listing) (s : Store) : Cursor where
  holding := holding
  listing := listing
  version := s.version

/-- One step over the present state of the store. A cursor that failed or came to the end stays
there. -/
def next (c : Cursor) (s : Store) : Except Fault (Option Point) × Cursor :=
  if c.finished then
    (.ok none, c)
  else if s.version ≠ c.version then
    (.error .modifiedDuringIteration, { c with finished := true })
  else
    match (c.listing.of s)[c.index]? with
    | some point => (.ok (some point), { c with index := c.index + 1 })
    | none => (.ok none, { c with finished := true })

/-- All points that are left, or the fault that ends them. -/
def rest (c : Cursor) (s : Store) : Except Fault (List Point) × Cursor :=
  if c.finished then
    (.ok [], c)
  else if s.version ≠ c.version then
    (.error .modifiedDuringIteration, { c with finished := true })
  else
    (.ok ((c.listing.of s).drop c.index), { c with finished := true })

end Cursor

end Peaks
