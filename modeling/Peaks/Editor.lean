import Peaks.Journal
import Peaks.Pool
import Peaks.Source
import Peaks.Store

/-!
# Editing a store

An editor is a store together with what an edit of it uses: the host that its orderings run in, the
mint, the pool and the journal.

- `Editor.set`   : defines the function at one argument
- `Editor.erase` : makes it undefined there; both are `setBy` and `eraseBy` with the test
  `Store.isLocalMaximum`
- `Editor.load`  : replaces the whole content
- `Editor.adopt` : installs points and maxima that are already known
-/

namespace Peaks

structure Editor (σ : Type) where
  host : σ
  mint : Mint := {}
  journal : Journal := []
  pool : Pool := {}
  store : Store := {}

namespace Editor

variable {σ α : Type}

/-- Runs an attempt in the host. -/
def onHost (attempt : Attempt σ α) : Attempt (Editor σ) α :=
  attempt.within host (fun h e => { e with host := h })

def debug (text : String) : Attempt (Editor σ) Unit :=
  modify fun e => { e with journal := e.journal.debug text }

/-- A cell for a payload, not yet recorded. -/
def obtainCell (p : Payload) : Attempt (Editor σ) Cell :=
  modifyGet fun e =>
    let (cell, pool, mint) := e.pool.obtain e.mint p
    (cell, { e with pool := pool, mint := mint })

def recordCells (cells : List Cell) : Attempt (Editor σ) Unit :=
  modify fun e => { e with pool := e.pool.recordAll cells }

def makePoint (argument value : Cell) : Attempt (Editor σ) Point :=
  modifyGet fun e =>
    let (point, mint) := e.mint.point argument value
    (point, { e with mint := mint })

/-- Puts a point list into the store; the maxima and the version stay. -/
def putPoints (points : List Point) : Attempt (Editor σ) Unit :=
  modify fun e => { e with store := { e.store with points := points } }

/-- Puts maxima into the store; the points and the version stay. -/
def putMaxima (maxima : List Point) : Attempt (Editor σ) Unit :=
  modify fun e => { e with store := { e.store with maxima := maxima } }

/-- Takes the point at a position out of the store, if one is given. -/
def popPoint (index : Option Nat) : Attempt (Editor σ) Unit :=
  modify fun e =>
    { e with store := { e.store with
        points := index.elim e.store.points e.store.points.eraseIdx } }

def countUp : Attempt (Editor σ) Unit :=
  modify fun e => { e with store := { e.store with version := e.store.version + 1 } }

/-! ## One argument -/

/-- Runs steps on the maxima of the store up to the first that fails. What they insert is in the
store at once. -/
def stageAll (steps : List (Staging → Attempt σ Staging)) :
    Attempt (Editor σ) (Staging × Option Fault) := do
  let (staging, failure) ← onHost (Staging.attemptAll steps (.start (← get).store.maxima))
  putMaxima staging.maxima
  return (staging, failure)

/-- What there is to say of a failed edit. -/
def rollbackText? (edit : String) (argument : Payload) (fault : Fault) : Option String := do
  let argumentText ← argument.text?
  let faultText ← fault.text?
  return edit ++ "(" ++ argumentText ++ ") rolled back: " ++ faultText

/-- Says that an edit failed, takes the staged insertions and the new point back, and fails. If what
is to be said cannot be formed, that is the fault, and nothing is taken back. -/
def abandon (edit : String) (argument : Payload) (staging : Staging) (added : Option Nat)
    (fault : Fault) : Attempt (Editor σ) α := do
  debug (← Attempt.ofOption (.unspoken fault) (rollbackText? edit argument fault))
  putMaxima staging.rollback.maxima
  popPoint added
  throw fault

/-- Commits the staged changes, takes out the point that goes, and counts the change. If the commit
stops half-way, it stays at that. -/
def conclude (staging : Staging) (gone : Option Nat) : Attempt (Editor σ) Unit := do
  let (maxima, failure) := staging.commit
  putMaxima maxima
  match failure with
  | some fault => throw fault
  | none => do
      popPoint gone
      countUp

/-- Puts a new point in, in place of the one at `old` if there is one. -/
def placeBy (judge : Store.Judge σ) (rules : Rules σ) (point : Point) (old : Option Nat)
    (cells : List Cell) (argument : Payload) : Attempt (Editor σ) Unit := do
  let store := (← get).store
  let (index, points) ← onHost (PointIndex.insert rules.argument store.points point)
  putPoints points
  let (staging, failure) ← stageAll (Store.setStepsBy judge rules points index old)
  match failure with
  | some fault => abandon "set_value" argument staging (some index) fault
  | none => do
      recordCells cells
      conclude staging old

/-- Defines the function at an argument; false if a tied value was already there. A replaced point
passes its argument cell on. -/
def setBy (judge : Store.Judge σ) (rules : Rules σ) (argument value : Payload) :
    Attempt (Editor σ) Bool := do
  let store := (← get).store
  match ← onHost (PointIndex.locate rules.argument store.points argument) with
  | some (old, previous) =>
      if ← onHost (Comparator.equivalent rules.value previous.value value) then
        return false
      let cell ← obtainCell value
      let point ← makePoint previous.argumentCell cell
      placeBy judge rules point (some old) [cell] argument
      return true
  | none =>
      let argumentCell ← obtainCell argument
      let valueCell ← obtainCell value
      let point ← makePoint argumentCell valueCell
      placeBy judge rules point none [argumentCell, valueCell] argument
      return true

/-- Makes the function undefined at an argument; false if it already is. -/
def eraseBy (judge : Store.Judge σ) (rules : Rules σ) (argument : Payload) :
    Attempt (Editor σ) Bool := do
  let store := (← get).store
  match ← onHost (PointIndex.find? rules.argument store.points argument) with
  | none => return false
  | some index =>
      let (staging, failure) ← stageAll (Store.eraseStepsBy judge rules store.points index)
      match failure with
      | some fault => abandon "erase" argument staging none fault
      | none =>
          conclude staging (some index)
          return true

def place (rules : Rules σ) : Point → Option Nat → List Cell → Payload → Attempt (Editor σ) Unit :=
  placeBy (Store.isLocalMaximum rules) rules

def set (rules : Rules σ) : Payload → Payload → Attempt (Editor σ) Bool :=
  setBy (Store.isLocalMaximum rules) rules

def erase (rules : Rules σ) : Payload → Attempt (Editor σ) Bool :=
  eraseBy (Store.isLocalMaximum rules) rules

/-! ## The whole content -/

/-- Installs points in order of their arguments, with their maxima in any order. -/
def adopt (rules : Rules σ) (points maxima : List Point) : Attempt (Editor σ) Unit := do
  let maxima ← onHost (MaximaIndex.sorted rules maxima)
  modify fun e =>
    { e with store := { points := points, maxima := maxima, version := e.store.version + 1 } }

/-- Installs pairs as they stand, each with cells of its own; the maxima are given by position. -/
def adoptPairs (rules : Rules σ) (pairs : List (Payload × Payload)) (maxima : List Int) :
    Attempt (Editor σ) Unit := do
  let points ← pairs.mapM fun (argument, value) =>
    modifyGet fun e =>
      let (point, mint) := e.mint.pointOf argument value
      (point, { e with mint := mint })
  let peaks ← maxima.mapM fun i => Attempt.ofExcept (Position.get points i)
  adopt rules points peaks

/-- A point with cells from the pool, not yet recorded. -/
def obtainPoint (argument value : Payload) : Attempt (Editor σ) Point := do
  let argumentCell ← obtainCell argument
  let valueCell ← obtainCell value
  makePoint argumentCell valueCell

/-- Replaces the content by pairs; of tied arguments the last one wins. The maxima come from one
rescan. -/
def load (rules : Rules σ) (source : Source) : Attempt (Editor σ) Unit := do
  let points ← source.traverse obtainPoint
  let sorted ← onHost (PointIndex.sorted rules.argument points)
  let unique ← onHost (PointIndex.lastOfEach rules.argument sorted)
  let maxima ← onHost (Scan.localMaxima rules.value Point.value unique)
  recordCells (unique.flatMap fun p => [p.argumentCell, p.valueCell])
  adopt rules unique maxima

end Editor

end Peaks
