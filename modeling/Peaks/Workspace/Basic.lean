import Peaks.Editor
import Peaks.Lease

/-!
# Workspaces

A workspace holds stores, the pools they draw from, and named handles that share stores until one of
them writes.

- `Holding`   : a store with its rules and its pool
- `Handle`    : a name, a lease on a shared holding, and a tally of what was done through it
- `Workspace` : all of these, in one host
- `Workspace.edit`, `Workspace.editClone` : an edit in place, and an edit of a private copy
- `Workspace.assignHolding`, `Workspace.shown` : a holding takes over the lists of another, and what
  those that read the other one see
-/

namespace Peaks

/-- A store with what it needs to be edited. -/
structure Holding (σ : Type) where
  rules : Rules σ
  pool : Nat
  store : Store := {}
  /-- The holding that took over the lists of this one and edits them from then on. -/
  heir : Option Nat := none

/-- The same points and maxima in a holding of their own, with the same rules and the same pool. -/
def Holding.clone {σ : Type} (h : Holding σ) : Holding σ :=
  { h with store := h.store.clone, heir := none }

/-- What was done through one handle. -/
structure Tally where
  sets : Nat := 0
  erases : Nat := 0
  noops : Nat := 0
  rollbacks : Nat := 0
  clones : Nat := 0
  deriving DecidableEq, Repr

structure Handle where
  name : String
  lease : Lease
  tally : Tally := {}
  deriving DecidableEq, Repr

structure Workspace (σ : Type) where
  host : σ
  mint : Mint := {}
  journal : Journal := []
  pools : List Pool := []
  holdings : List (Holding σ) := []
  shares : SharedTable Nat := []
  handles : List Handle := []

namespace Workspace

variable {σ α : Type}

/-! ## Parts -/

def onHost (attempt : Attempt σ α) : Attempt (Workspace σ) α :=
  attempt.within host (fun h w => { w with host := h })

def debug (text : String) : Attempt (Workspace σ) Unit :=
  modify fun w => { w with journal := w.journal.debug text }

/-- Tells what became of a fault, if its text can be formed. -/
def report (outcome : String) (fault : Fault) : Attempt (Workspace σ) Unit := do
  let text ← Attempt.ofOption (.unspoken fault) fault.text?
  debug (outcome ++ ": " ++ text)

def warning (text : String) : Attempt (Workspace σ) Unit :=
  modify fun w => { w with journal := w.journal.warning text }

/-- The journal so far, which is then empty. -/
def takeJournal (w : Workspace σ) : Journal × Workspace σ :=
  (w.journal, { w with journal := [] })

def holding (id : Nat) : Attempt (Workspace σ) (Holding σ) := do
  match (← get).holdings[id]? with
  | some h => return h
  | none => throw (.unboundName "store")

def pool (id : Nat) : Attempt (Workspace σ) Pool := do
  match (← get).pools[id]? with
  | some p => return p
  | none => throw (.unboundName "pool")

def share (id : Nat) : Attempt (Workspace σ) (Shared Nat) := do
  match (← get).shares[id]? with
  | some s => return s
  | none => throw (.unboundName "share")

def addPool (p : Pool) : Attempt (Workspace σ) Nat :=
  modifyGet fun w => (w.pools.length, { w with pools := w.pools ++ [p] })

def setPool (id : Nat) (p : Pool) : Attempt (Workspace σ) Unit :=
  modify fun w => { w with pools := w.pools.set id p }

def addHolding (h : Holding σ) : Attempt (Workspace σ) Nat :=
  modifyGet fun w => (w.holdings.length, { w with holdings := w.holdings ++ [h] })

/-- Replaces the store of a holding. -/
def setStore (id : Nat) (s : Store) : Attempt (Workspace σ) Unit :=
  modify fun w => { w with holdings := w.holdings.modify id fun h => { h with store := s } }

/-- A new shared entry with one owner. -/
def addShare (holding : Nat) : Attempt (Workspace σ) Nat :=
  modifyGet fun w => (w.shares.length, { w with shares := w.shares ++ [{ content := holding }] })

/-! ## Edits -/

/-- An editor of the given store. -/
def editor (w : Workspace σ) (h : Holding σ) (pool : Pool) : Editor σ :=
  { host := w.host, mint := w.mint, journal := w.journal, pool := pool, store := h.store }

/-- Takes back everything but the store. -/
def absorb (w : Workspace σ) (poolId : Nat) (e : Editor σ) : Workspace σ :=
  { w with
    host := e.host, mint := e.mint, journal := e.journal, pools := w.pools.set poolId e.pool }

/-- Runs an edit on a store that need not belong to a holding, and returns what became of it. After
a fault the store is lost, but nothing else. -/
def editDetached (h : Holding σ) (act : Rules σ → Attempt (Editor σ) α) :
    Attempt (Workspace σ) (α × Store) := do
  let pool ← pool h.pool
  Attempt.within (fun w => w.editor h pool) (fun e w => w.absorb h.pool e) do
    let result ← act h.rules
    return (result, (← get).store)

/-- Runs an edit on the store of a holding, in place. -/
def edit (id : Nat) (act : Rules σ → Attempt (Editor σ) α) : Attempt (Workspace σ) α := do
  let h ← holding id
  let pool ← pool h.pool
  Attempt.within (fun w => w.editor h pool)
    (fun e w =>
      { w.absorb h.pool e with
        holdings := w.holdings.modify id fun h => { h with store := e.store } })
    (act h.rules)

/-- Runs an edit on a private copy of a holding. -/
def editClone (id : Nat) (act : Rules σ → Attempt (Editor σ) α) :
    Attempt (Workspace σ) (α × Holding σ) := do
  let clone := (← holding id).clone
  let (result, store) ← editDetached clone act
  return (result, { clone with store := store })

/-! ## Whole holdings -/

/-- A private copy of a holding. -/
def cloneHolding (id : Nat) : Attempt (Workspace σ) Nat := do
  addHolding (← holding id).clone

/-- What a holding shows to those that began to read it: the lists as its heir has them now, under
its own version. -/
def shown (id : Nat) : Attempt (Workspace σ) Store := do
  let h ← holding id
  match h.heir with
  | none => return h.store
  | some heir => return { (← holding heir).store with version := h.store.version }

/-- Before the lists of a holding are replaced, those that share them keep them as they are. -/
def releasePredecessors (id : Nat) (lists : Store) : Attempt (Workspace σ) Unit :=
  modify fun w => { w with
    holdings := w.holdings.map fun h =>
      if h.heir = some id then
        { h with store := { lists with version := h.store.version }, heir := none }
      else h }

/-- Runs an edit that puts new lists in the place of a holding's old ones. -/
def overwrite (id : Nat) (act : Rules σ → Attempt (Editor σ) α) : Attempt (Workspace σ) α := do
  let before := (← holding id).store
  let result ← edit id act
  releasePredecessors id before
  return result

/-- The lists of a holding, and all that share them, get a new heir. -/
def bequeath (other id : Nat) : Attempt (Workspace σ) Unit :=
  modify fun w => { w with
    holdings := w.holdings.mapIdx fun i h =>
      if i = other ∨ h.heir = some other then { h with heir := some id } else h }

/-- A holding takes over the lists of another, which goes on showing them. They have one writer, the
heir: the other one is for reading from then on, as with a private copy that is put in place and
dropped. What is written into it later is not seen by its heir. -/
def assignHolding (id other : Nat) : Attempt (Workspace σ) Unit := do
  let h ← holding id
  let lists := (← holding other).store
  if id ≠ other then
    releasePredecessors id h.store
    bequeath other id
  setStore id (h.store.assign lists)

/-- Takes one entry out of the maxima of a holding and nothing else. -/
def popMaximum (id : Nat) (index : Int) : Attempt (Workspace σ) Point := do
  let h ← holding id
  let (point, store) ← Attempt.ofExcept (h.store.popMaximum index)
  setStore id store
  return point

/-! ## Questions to a store -/

/-- Asks something of a holding's store. -/
def ask (id : Nat) (question : Rules σ → Store → Attempt σ α) : Attempt (Workspace σ) α := do
  let h ← holding id
  onHost (question h.rules h.store)

end Workspace

end Peaks
