import Peaks.Workspace.Basic

/-!
# Handles

Handles are bound to names. A copy leases the same shared entry; the first write through a handle
whose entry has several owners goes to a private copy, and the handle moves there only when the
write succeeded.

- `Workspace.bind`, `Workspace.drop` : names come and go
- `Workspace.mutate` : a write, in place or on a private copy
- `Workspace.set`, `Workspace.erase`, `Workspace.remove` : single edits through a handle
-/

namespace Peaks
namespace Workspace

variable {σ α : Type}

/-! ## Names -/

def handle? (w : Workspace σ) (name : String) : Option Handle :=
  w.handles.find? (·.name == name)

def handle (name : String) : Attempt (Workspace σ) Handle := do
  match (← get).handle? name with
  | some h => return h
  | none => throw (.unboundName name)

/-- Changes the handle of a name. -/
def updateHandle (name : String) (f : Handle → Handle) : Attempt (Workspace σ) Unit :=
  modify fun w =>
    { w with handles := w.handles.map fun h => if h.name == name then f h else h }

def count (name : String) (f : Tally → Tally) : Attempt (Workspace σ) Unit :=
  updateHandle name fun h => { h with tally := f h.tally }

/-- The shared entry that a handle leases. -/
def leased (name : String) : Attempt (Workspace σ) Nat := do
  Attempt.ofExcept (← handle name).lease.claimed?

/-- The holding that a handle shows. -/
def holdingOf (name : String) : Attempt (Workspace σ) Nat := do
  return (← share (← leased name)).content

/-- Gives up the lease of a name and forgets the name. -/
def drop (name : String) : Attempt (Workspace σ) Unit :=
  modify fun w =>
    match w.handle? name with
    | some h =>
        { w with
          shares := h.lease.releaseClaim w.shares
          handles := w.handles.filter (·.name != name) }
    | none => w

/-- Binds a name to a new handle on a shared entry. The handle that had the name is dropped. -/
def bind (name : String) (entry : Nat) : Attempt (Workspace σ) Unit := do
  drop name
  modify fun w => { w with handles := w.handles ++ [{ name := name, lease := .on entry }] }

/-- Moves the lease of a handle to another shared entry. -/
def rebind (name : String) (entry : Nat) : Attempt (Workspace σ) Unit := do
  let h ← handle name
  modify fun w => { w with shares := (h.lease.rebind entry w.shares).2 }
  updateHandle name fun h => { h with lease := .on entry }

/-! ## Copies -/

/-- A second handle on the same shared entry. -/
def copy (name source : String) : Attempt (Workspace σ) Unit := do
  let entry ← leased source
  modify fun w => { w with shares := w.shares.modify entry Shared.acquire }
  bind name entry

/-- A handle on a store of its own. -/
def deepCopy (name source : String) : Attempt (Workspace σ) Unit := do
  let id ← cloneHolding (← holdingOf source)
  bind name (← addShare id)

/-! ## Writing -/

/-- Runs an edit through a handle: in place for a sole owner, else on a private copy that the handle
then moves to. A fault leaves the handle where it was and is counted, unless it was to be told first
and could not. -/
def mutate (name : String) (act : Rules σ → Attempt (Editor σ) α) : Attempt (Workspace σ) α := do
  let shared ← share (← leased name)
  if shared.isShared then
    let h ← holding shared.content
    debug ("Cloning implementation shared by " ++ toString shared.owners ++ " handles (" ++
      toString h.store.points.length ++ " points)")
    match ← (editClone shared.content act).settle with
    | .ok (result, clone) =>
        rebind name (← addShare (← addHolding clone))
        count name fun t => { t with clones := t.clones + 1 }
        return result
    | .error fault =>
        report "Discarding clone after failed write" fault
        count name fun t => { t with rollbacks := t.rollbacks + 1 }
        throw fault
  else
    match ← (edit shared.content act).settle with
    | .ok result => return result
    | .error fault =>
        count name fun t => { t with rollbacks := t.rollbacks + 1 }
        throw fault

/-- Defines the function at an argument. A value tied with the one already there changes nothing. -/
def set (name : String) (argument value : Payload) : Attempt (Workspace σ) Unit := do
  let id ← holdingOf name
  if ← ask id (Store.wouldKeep · · argument value) then
    count name fun t => { t with noops := t.noops + 1 }
  else
    let _ ← mutate name (Editor.set · argument value)
    count name fun t => { t with sets := t.sets + 1 }

/-- Makes the function undefined at an argument, if it is not already. -/
def erase (name : String) (argument : Payload) : Attempt (Workspace σ) Unit := do
  let id ← holdingOf name
  match ← ask id (Store.find? · · argument) with
  | none => count name fun t => { t with noops := t.noops + 1 }
  | some _ =>
      let _ ← mutate name (Editor.erase · argument)
      count name fun t => { t with erases := t.erases + 1 }

/-- Makes the function undefined at an argument, which must be there. -/
def remove (name : String) (argument : Payload) : Attempt (Workspace σ) Unit := do
  let id ← holdingOf name
  match ← ask id (Store.find? · · argument) with
  | none => throw (.invalidArgument argument)
  | some _ => erase name argument

/-! ## Questions -/

/-- Asks something of the store that a handle shows. -/
def query (name : String) (question : Rules σ → Store → Attempt σ α) : Attempt (Workspace σ) α := do
  ask (← holdingOf name) question

def store (name : String) : Attempt (Workspace σ) Store := do
  return (← holding (← holdingOf name)).store

/-- The value at an argument, or else the given one. -/
def getD (name : String) (argument fallback : Payload) : Attempt (Workspace σ) Payload := do
  let point ← query name (Store.find? · · argument)
  return (point.map Point.value).getD fallback

/-- Whether some other handle shares this one's store. -/
def isShared (name : String) : Attempt (Workspace σ) Bool := do
  return (← share (← leased name)).isShared

/-- Equal lists of pairs. -/
def pairsEq : List (Payload × Payload) → List (Payload × Payload) → Bool
  | [], [] => true
  | (a, v) :: ps, (b, w) :: qs => a.matchesItem b && v.matchesItem w && pairsEq ps qs
  | _, _ => false

/-- Two handles are equal when they show one store or equal pairs. -/
def handlesEq (first second : String) : Attempt (Workspace σ) Bool := do
  let id ← holdingOf first
  let other ← holdingOf second
  if id == other then
    return true
  return pairsEq (← store first).pairs (← store second).pairs

/-- Compares the maxima with a rescan and reports every problem. -/
def verify (name : String) : Attempt (Workspace σ) Bool := do
  let problems ← query name Store.check
  problems.forM fun problem => warning ("FunctionMaxima inconsistency: " ++ problem)
  return problems.isEmpty

/-- The text of a handle: its pairs in order. -/
def display (name : String) : Attempt (Workspace σ) String := do
  let pairs ← Attempt.ofOption .tooManyDigits (Point.pairsText? (← store name).points)
  return "FunctionMaxima(" ++ pairs ++ ")"

/-- A handle is no key, because its content changes. -/
def hash (name : String) : Attempt (Workspace σ) Unit := do
  let _ ← handle name
  throw (.unhashable "FunctionMaxima")

/-- Forgets all cells of the pool behind a handle. -/
def clearPool (name : String) : Attempt (Workspace σ) Unit := do
  let id := (← holding (← holdingOf name)).pool
  setPool id (← pool id).clear

/-- Everything that is counted about a handle. -/
structure Stats where
  tally : Tally
  size : Nat
  maxima : Nat
  shared : Bool
  owners : Int
  pool : Pool.Stats

def stats (name : String) : Attempt (Workspace σ) Stats := do
  let h ← handle name
  let shared ← share (← leased name)
  let holding ← holding shared.content
  return {
    tally := h.tally
    size := holding.store.points.length
    maxima := holding.store.maxima.length
    shared := shared.isShared
    owners := shared.owners
    pool := (← pool holding.pool).stats }

end Workspace
end Peaks
