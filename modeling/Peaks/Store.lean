import Peaks.PointIndex
import Peaks.Scan
import Peaks.Staging

/-!
# Stores

A store holds the points of a function by argument and its local maxima in maxima order, and counts
its changes.

- `Store.find?`, `Store.valueAt`, `Store.wouldKeep` : questions to a store
- `Store.isLocalMaximum` : the test of one point, by which edits judge
- `Store.setStepsBy`, `Store.eraseStepsBy` : what one edit stages, looking at three points at most
- `Store.check` : compares the maxima with a full rescan
-/

namespace Peaks

structure Store where
  points : List Point := []
  maxima : List Point := []
  version : Nat := 0
  deriving Repr

namespace Store

variable {σ : Type}

/-! ## Questions -/

/-- The point at an argument. -/
def find? (rules : Rules σ) (s : Store) (argument : Payload) : Attempt σ (Option Point) := do
  return (← PointIndex.locate rules.argument s.points argument).map (·.2)

def valueAt (rules : Rules σ) (s : Store) (argument : Payload) : Attempt σ Payload := do
  match ← find? rules s argument with
  | some point => return point.value
  | none => throw (.invalidArgument argument)

/-- Whether setting this value would change nothing. -/
def wouldKeep (rules : Rules σ) (s : Store) (argument value : Payload) : Attempt σ Bool := do
  match ← find? rules s argument with
  | some point => Comparator.equivalent rules.value point.value value
  | none => return false

def pairs (s : Store) : List (Payload × Payload) :=
  s.points.map Point.pair

/-- The same points and maxima in a store of their own. -/
def clone (s : Store) : Store :=
  { s with version := 0 }

/-- Takes over the content of another store. -/
def assign (s other : Store) : Store :=
  { points := other.points, maxima := other.maxima, version := s.version + 1 }

/-- Takes one entry out of the maxima and nothing else, which leaves the store inconsistent. -/
def popMaximum (s : Store) (index : Int) : Except Fault (Point × Store) := do
  let (point, maxima) ← Position.pop s.maxima index
  return (point, { s with maxima := maxima })

/-! ## Judging one point

While an edit is staged the list may hold a point that is on its way out; its position is ignored.
-/

/-- The position after the given one, leaving out the ignored one. -/
def nextSkipping (length index : Nat) (ignored : Option Nat) : Option Nat :=
  let following := if ignored = some (index + 1) then index + 2 else index + 1
  if following < length then some following else none

/-- The position before the given one, leaving out the ignored one. -/
def prevSkipping (index : Nat) (ignored : Option Nat) : Option Nat :=
  match index with
  | 0 => none
  | i + 1 =>
      if ignored = some i then
        match i with
        | 0 => none
        | j + 1 => some j
      else some i

/-- Whether the point at a position is a local maximum among those not ignored. -/
def isLocalMaximum (rules : Rules σ) (points : List Point) (index : Nat) (point : Point)
    (ignored : Option Nat) : Attempt σ Bool :=
  let valueAt? (i : Nat) := points[i]?.map Point.value
  Scan.isPeak rules.value ((prevSkipping index ignored).bind valueAt?) point.value
    ((nextSkipping points.length index ignored).bind valueAt?)

/-- A test for local maxima: the points, the position and the point there, and the position to
ignore. -/
abbrev Judge (σ : Type) :=
  List Point → Nat → Point → Option Nat → Attempt σ Bool

/-- Stages what becomes of the point at a position, if there is one that is not ignored. -/
def stageBy (judge : Judge σ) (rules : Rules σ) (points : List Point) (index ignored : Option Nat)
    (s : Staging) : Attempt σ Staging := do
  match index with
  | none => return s
  | some i =>
      if index = ignored then
        return s
      match points[i]? with
      | none => throw .indexOutOfRange
      | some point => do
          let indexed := (← MaximaIndex.find? rules s.maxima point).isSome
          if ← judge points i point ignored then
            if indexed then return s else s.insert rules point
          else
            return if indexed then s.defer point else s

def stage (rules : Rules σ) : List Point → Option Nat → Option Nat → Staging → Attempt σ Staging :=
  stageBy (isLocalMaximum rules) rules

/-- Marks the point at a position for removal. -/
def deferAt (points : List Point) (index : Nat) (s : Staging) : Attempt σ Staging :=
  match points[index]? with
  | some point => pure (s.defer point)
  | none => throw .indexOutOfRange

/-- Once a new point stands at `index` and `old` is on its way out: the point after it, itself, the
point before it, then the old point. -/
def setStepsBy (judge : Judge σ) (rules : Rules σ) (points : List Point) (index : Nat)
    (old : Option Nat) : List (Staging → Attempt σ Staging) :=
  [stageBy judge rules points (nextSkipping points.length index old) old,
   stageBy judge rules points (some index) old,
   stageBy judge rules points (prevSkipping index old) old] ++
  old.toList.map (deferAt points) ++
  [Staging.prepare rules]

def setSteps (rules : Rules σ) :
    List Point → Nat → Option Nat → List (Staging → Attempt σ Staging) :=
  setStepsBy (isLocalMaximum rules) rules

/-- The point at `index` is on its way out: the point after it, the point before it, then itself. -/
def eraseStepsBy (judge : Judge σ) (rules : Rules σ) (points : List Point) (index : Nat) :
    List (Staging → Attempt σ Staging) :=
  [stageBy judge rules points (nextSkipping points.length index (some index)) (some index),
   stageBy judge rules points (prevSkipping index (some index)) (some index),
   deferAt points index,
   Staging.prepare rules]

def eraseSteps (rules : Rules σ) : List Point → Nat → List (Staging → Attempt σ Staging) :=
  eraseStepsBy (isLocalMaximum rules) rules

/-! ## Checking -/

/-- What there is to say of two neighbours whose arguments compare with the given sign. -/
def orderProblem? (left right : Point) (sign : Int) : Option (List String) :=
  if 0 ≤ sign then do
    let leftText ← left.argument.text?
    let rightText ← right.argument.text?
    return ["arguments out of order: " ++ leftText ++ ", " ++ rightText]
  else some []

/-- One line for each pair of neighbours whose arguments do not increase. -/
def orderProblems (rules : Rules σ) : List Point → Attempt σ (List String)
  | left :: right :: rest => do
      let sign ← rules.argument left.argument right.argument
      let problem ← Attempt.ofOption .tooManyDigits (orderProblem? left right sign)
      return problem ++ (← orderProblems rules (right :: rest))
  | _ => pure []

/-- What there is to say of maxima that are not the expected ones. -/
def maximaProblem? (maxima expected : List Point) : Option String := do
  let maximaText ← Point.pairsText? maxima
  let expectedText ← Point.pairsText? expected
  return "maxima index " ++ maximaText ++ " != rescan " ++ expectedText

/-- Whether two lists hold the same points in the same order. -/
def samePoints : List Point → List Point → Bool
  | [], [] => true
  | p :: ps, q :: qs => p.same q && samePoints ps qs
  | _, _ => false

/-- The local maxima found by a rescan, in maxima order. -/
def rescan (rules : Rules σ) (points : List Point) : Attempt σ (List Point) := do
  MaximaIndex.sorted rules (← Scan.localMaxima rules.value Point.value points)

/-- Everything that is wrong with a store; nothing if it is consistent. -/
def check (rules : Rules σ) (s : Store) : Attempt σ (List String) := do
  let problems ← orderProblems rules s.points
  let expected ← rescan rules s.points
  if samePoints expected s.maxima then
    return problems
  else
    return problems ++ [← Attempt.ofOption .tooManyDigits (maximaProblem? s.maxima expected)]

end Store

end Peaks
