import Peaks.Payload.Compare

/-!
# Points

A point is an argument with its value, each held in a cell that several points may share. Cells and
points are told apart by number, and a mint numbers the ones that are made.

- `Cell`, `Point` : the data
- `Mint`          : where new cells, points and objects come from
- `Point.eq`      : equality of payloads, not of numbers
-/

namespace Peaks

/-- A read-only holder of one payload. -/
structure Cell where
  id : Nat
  payload : Payload
  deriving Repr

/-- An argument and its value. -/
structure Point where
  id : Nat
  argumentCell : Cell
  valueCell : Cell
  deriving Repr

/-! ## Making cells and points -/

/-- The next unused numbers. -/
structure Mint where
  nextCell : Nat := 0
  nextPoint : Nat := 0
  nextObject : Nat := 0
  deriving Repr, Inhabited

namespace Mint

def cell (m : Mint) (p : Payload) : Cell × Mint :=
  ({ id := m.nextCell, payload := p }, { m with nextCell := m.nextCell + 1 })

def point (m : Mint) (argument value : Cell) : Point × Mint :=
  ({ id := m.nextPoint, argumentCell := argument, valueCell := value },
   { m with nextPoint := m.nextPoint + 1 })

/-- A point with cells of its own. -/
def pointOf (m : Mint) (argument value : Payload) : Point × Mint :=
  let (a, m) := m.cell argument
  let (v, m) := m.cell value
  m.point a v

/-- A new object of the given content; a content that exists only once is returned as it is. -/
def object (m : Mint) (p : Payload) : Payload × Mint :=
  if p.content.isSingleton then (p, m)
  else (.tagged (.fresh m.nextObject) p, { m with nextObject := m.nextObject + 1 })

end Mint

namespace Point

def argument (p : Point) : Payload :=
  p.argumentCell.payload

def value (p : Point) : Payload :=
  p.valueCell.payload

def pair (p : Point) : Payload × Payload :=
  (p.argument, p.value)

/-- Whether two points are the same point. -/
def same (p q : Point) : Bool :=
  p.id == q.id

/-- Another point at the same argument cell. -/
def withValue (p : Point) (value : Cell) (m : Mint) : Point × Mint :=
  m.point p.argumentCell value

/-! ## Equality and text -/

/-- Equal payloads on both sides. -/
def eq (p q : Point) : Bool :=
  p.argument.matchesItem q.argument && p.value.matchesItem q.value

/-- A point equals a tuple of two that holds its payloads. -/
def eqPayload (p : Point) (other : Payload) : Bool :=
  match other.content with
  | .tuple items => Payload.allEq [p.argument, p.value] items
  | _ => false

def hashable? (p : Point) : Except Fault Unit := do
  p.argument.hashable?
  p.value.hashable?

/-- How many different points there are, if all of them can be keys. -/
def countDistinct? (points : List Point) : Except Fault Nat := do
  let kept ← points.foldlM (fun kept p => do
    p.hashable?
    return if kept.any (fun q => q.eq p) then kept else p :: kept) ([] : List Point)
  return kept.length

def display (p : Point) : String :=
  "Point(argument=" ++ p.argument.display ++ ", value=" ++ p.value.display ++ ")"

/-- Whether the texts of both payloads can be formed. -/
def isWritable (p : Point) : Bool :=
  p.argument.isWritable && p.value.isWritable

/-- The text of a list of points, each as a pair, unless a number in it has too many digits. -/
def pairsText? (points : List Point) : Option String :=
  if points.all isWritable then some (listText (points.map fun p => pairText p.argument p.value))
  else none

end Point

end Peaks
