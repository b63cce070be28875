import Mathlib.Logic.Function.Basic
import Peaks.Workspace.Build
import Peaks.Proofs.Ahead
import Peaks.Proofs.Ownership

/-!
# Handles as values

On a shelf every name has a content of its own: a copy copies the content, and a write replaces the
content of one name. There are no leases, no owners and no private copies. A workspace shows a
shelf, and the steps of a program are told here for shelves.

- `Shown`           : what one handle shows
- `Shelf`           : what all names show, with the host, the mint and the pools
- `Shelf.perform`   : one step of a program
- `Workspace.shelf` : the shelf that a workspace shows
-/

namespace Peaks

/-- The points and maxima of a handle, and what its writes need. -/
structure Shown (σ : Type) where
  rules : Rules σ
  pool : Nat
  points : List Point := []
  maxima : List Point := []

def Shown.store {σ : Type} (c : Shown σ) : Store where
  points := c.points
  maxima := c.maxima

def Holding.shown {σ : Type} (h : Holding σ) : Shown σ where
  rules := h.rules
  pool := h.pool
  points := h.store.points
  maxima := h.store.maxima

structure Shelf (σ : Type) where
  host : σ
  mint : Mint
  pools : List Pool
  shown : String → Option (Shown σ)

namespace Shelf

variable {σ α : Type}

/-! ## Parts -/

def read (name : String) : Attempt (Shelf σ) (Shown σ) := fun s =>
  match s.shown name with
  | some c => .ok c s
  | none => .error (.unboundName name) s

/-- The shelf with the content of one name replaced. -/
def replaced (s : Shelf σ) (name : String) (c : Shown σ) : Shelf σ :=
  { s with shown := Function.update s.shown name (some c) }

def put (name : String) (c : Shown σ) : Attempt (Shelf σ) Unit :=
  modify fun s => s.replaced name c

def withdraw (name : String) : Attempt (Shelf σ) Unit :=
  modify fun s => { s with shown := Function.update s.shown name none }

def ask (question : Attempt σ α) : Attempt (Shelf σ) α :=
  question.within host fun h s => { s with host := h }

/-- A content without points and with a pool of its own. -/
def addEmpty (config : Config σ) : Attempt (Shelf σ) (Shown σ) :=
  modifyGet fun s =>
    ({ rules := config.rules, pool := s.pools.length },
      { s with pools := s.pools ++ [config.pool] })

/-- Takes back everything but the store. -/
def absorb (s : Shelf σ) (poolId : Nat) (e : Editor σ) : Shelf σ :=
  { s with host := e.host, mint := e.mint, pools := s.pools.set poolId e.pool }

/-- Runs an edit on a content and returns what became of it. -/
def edit (c : Shown σ) (act : Rules σ → Attempt (Editor σ) α) :
    Attempt (Shelf σ) (α × Shown σ) := fun s =>
  match s.pools[c.pool]? with
  | none => .error (.unboundName "pool") s
  | some pool =>
      match act c.rules { host := s.host, mint := s.mint, pool := pool, store := c.store } with
      | .ok a e =>
          .ok (a, { c with points := e.store.points, maxima := e.store.maxima }) (s.absorb c.pool e)
      | .error fault e => .error fault (s.absorb c.pool e)

/-! ## Steps -/

/-- Replaces the content of a name by an edited one, if the edit succeeds. -/
def mutate (name : String) (act : Rules σ → Attempt (Editor σ) α) : Attempt (Shelf σ) α := do
  let (result, c) ← edit (← read name) act
  put name c
  return result

def copy (name source : String) : Attempt (Shelf σ) Unit := do
  put name (← read source)

def fromItems (name : String) (source : Source) (config : Config σ) : Attempt (Shelf σ) Unit := do
  let (_, c) ← edit (← addEmpty config) (Editor.load · source)
  put name c

def set (name : String) (argument value : Payload) : Attempt (Shelf σ) Unit := do
  let c ← read name
  if ← ask (Store.wouldKeep c.rules c.store argument value) then
    return
  let _ ← mutate name (Editor.set · argument value)

def erase (name : String) (argument : Payload) : Attempt (Shelf σ) Unit := do
  let c ← read name
  if (← ask (Store.find? c.rules c.store argument)).isSome then
    let _ ← mutate name (Editor.erase · argument)

def remove (name : String) (argument : Payload) : Attempt (Shelf σ) Unit := do
  let c ← read name
  if (← ask (Store.find? c.rules c.store argument)).isSome then
    erase name argument
  else
    throw (.invalidArgument argument)

/-- Sets one pair on a content that no name shows yet. -/
def setOn (c : Shown σ) (argument value : Payload) : Attempt (Shelf σ) (Shown σ) := do
  return (← edit c (Editor.set · argument value)).2

/-- A batch that failed fails over its fault if that cannot be told. -/
def update (name : String) (source : Source) : Attempt (Shelf σ) Unit := do
  match ← (source.fold setOn (← read name)).settle with
  | .ok c => put name c
  | .error fault =>
      let _ ← Attempt.ofOption (.unspoken fault) fault.text?
      throw fault

theorem update_of_ok {name : String} {source : Source} {s t : Shelf σ} {c d : Shown σ}
    (hread : read name s = .ok c s) (hfold : source.fold setOn c s = .ok d t) :
    update name source s = .ok ⟨⟩ (t.replaced name d) := by
  rw [update, Attempt.bind_of_ok hread, Attempt.bind_of_ok (Attempt.settle_of_ok hfold)]
  rfl

theorem update_of_error {name : String} {source : Source} {s t : Shelf σ} {c : Shown σ}
    {fault : Fault} (hread : read name s = .ok c s)
    (hfold : source.fold setOn c s = .error fault t) :
    update name source s = .error fault.reported t := by
  rw [update, Attempt.bind_of_ok hread, Attempt.bind_of_ok (Attempt.settle_of_error hfold)]
  simp only [Fault.text?, Fault.reported]
  cases fault.isWritable with
  | true =>
      rfl
  | false =>
      rfl

/-- One step of a program. Functions of arrays are left out. -/
def perform : Step σ → Attempt (Shelf σ) Unit
  | .create name config => do put name (← addEmpty config)
  | .fromItems name source config => fromItems name source config
  | .fromArrays .. => pure ()
  | .copy name source => copy name source
  | .deepCopy name source => copy name source
  | .drop name => withdraw name
  | .set name argument value => set name argument value
  | .erase name argument => erase name argument
  | .remove name argument => remove name argument
  | .update name source => update name source
  | .updateFrom name source => do update name (.ofPairs (← read source).store.pairs)

end Shelf

namespace Workspace

variable {σ : Type} {w t : Workspace σ} {name : String}

/-! ## What a workspace shows -/

def shown? (w : Workspace σ) (name : String) : Option (Shown σ) :=
  (w.leaseOf? name).map (·.2.shown)

def shelf (w : Workspace σ) : Shelf σ where
  host := w.host
  mint := w.mint
  pools := w.pools
  shown := w.shown?

theorem shelf_of_kept (hkept : ∀ g, t.leaseOf? g = w.leaseOf? g) :
    t.shelf = { host := t.host, mint := t.mint, pools := t.pools, shown := w.shelf.shown } := by
  have hshown : t.shown? = w.shown? := by
    funext g
    rw [shown?, shown?, hkept g]
  simp only [shelf, hshown]

/-- If one name shows something else now, its content on the shelf was replaced. -/
theorem shelf_of_update {id : Nat} {h : Holding σ} (hself : t.leaseOf? name = some (id, h))
    (hkept : ∀ g, g ≠ name → t.leaseOf? g = w.leaseOf? g) :
    t.shelf =
      { host := t.host
        mint := t.mint
        pools := t.pools
        shown := Function.update w.shelf.shown name (some h.shown) } := by
  have hshown : t.shown? = Function.update w.shown? name (some h.shown) := by
    funext g
    by_cases hg : g = name
    · subst hg
      rw [Function.update_self, shown?, hself]
      rfl
    · rw [Function.update_of_ne hg, shown?, shown?, hkept g hg]
  simp only [shelf, hshown]

section Edit

variable {α : Type} {act : Rules σ → Attempt (Editor σ) α} {h : Holding σ} {pool : Pool}
  (hcommutes : ∀ lines n e, Attempt.Commutes (Editor.ahead lines n) (act h.rules) (act h.rules) e)
  (hpool : w.pools[h.pool]? = some pool)
include hcommutes hpool

/-- A content on the shelf is edited as the store behind it is. -/
theorem edit_shelf :
    Shelf.edit h.shown act w.shelf =
      match act h.rules (w.editor h pool) with
      | .ok a e => .ok (a, { h with store := e.store }.shown) (w.shelf.absorb h.pool e)
      | .error fault e => .error fault (w.shelf.absorb h.pool e) := by
  let start : Editor σ := { host := w.host, mint := w.mint, pool := pool, store := h.shown.store }
  -- the editor on the shelf starts with an empty journal and at version zero
  have hstart : w.editor h pool = start.ahead w.journal h.store.version := by
    simp [start, editor, Editor.ahead, Holding.shown, Shown.store]
  have hrun := hcommutes w.journal h.store.version start
  rw [Attempt.Commutes, ← hstart] at hrun
  have hpool' : w.shelf.pools[h.shown.pool]? = some pool := hpool
  unfold Shelf.edit
  rw [hpool', hrun]
  change (match act h.rules start with | .ok a e => _ | .error fault e => _) = _
  cases act h.rules start with
  | ok a e =>
      rfl
  | error fault e =>
      rfl

theorem edit_shelf_of_ok {a : α} {e : Editor σ} (hrun : act h.rules (w.editor h pool) = .ok a e) :
    Shelf.edit h.shown act w.shelf =
      .ok (a, { h with store := e.store }.shown) (w.shelf.absorb h.pool e) := by
  rw [edit_shelf hcommutes hpool, hrun]

theorem edit_shelf_of_error {fault : Fault} {e : Editor σ}
    (hrun : act h.rules (w.editor h pool) = .error fault e) :
    Shelf.edit h.shown act w.shelf = .error fault (w.shelf.absorb h.pool e) := by
  rw [edit_shelf hcommutes hpool, hrun]

end Edit

end Workspace

end Peaks
