import Peaks.Point

/-!
# Payload pools

A pool remembers a bounded number of cells, the most recently used ones, so that one payload object
set in several places is held in one cell.

- `Pool.lookup` : the remembered cell of this very object; looking makes a key the most recent
- `Pool.record` : counts a cell that came into use and remembers it
- `Pool.stats`  : what the pool counted
-/

namespace Peaks

/-- A remembered cell under the payload that first asked for it. -/
structure PoolEntry where
  key : Payload
  cell : Cell
  deriving Repr

/-- Entries stand from the most to the least recently used. A capacity that is not positive means
that nothing is remembered. -/
structure Pool where
  capacity : Int := 1024
  entries : List PoolEntry := []
  requests : Nat := 0
  shared : Nat := 0
  deriving Repr

namespace Pool

/-- Keys match when they are the same object or equal, and of one kind. -/
def keysMatch (p q : Payload) : Bool :=
  p.matchesItem q && p.kind == q.kind

/-- Only hashable payloads are keys, and only if the pool remembers anything. -/
def remembers (pool : Pool) (p : Payload) : Bool :=
  0 < pool.capacity && p.isHashable

def find? (pool : Pool) (p : Payload) : Option PoolEntry :=
  pool.entries.find? (keysMatch ·.key p)

/-- The entries without the one of a key. -/
def others (pool : Pool) (p : Payload) : List PoolEntry :=
  pool.entries.eraseP (keysMatch ·.key p)

/-- The entry of a key, which thereby becomes the most recent one. -/
def get (pool : Pool) (p : Payload) : Option PoolEntry × Pool :=
  match pool.find? p with
  | some entry => (some entry, { pool with entries := entry :: pool.others p })
  | none => (none, pool)

/-- Remembers a cell under a new key, as the most recent one. A full pool makes room by forgetting
the least recent one. -/
def push (pool : Pool) (p : Payload) (cell : Cell) : Pool :=
  { pool with entries := { key := p, cell := cell } :: pool.entries.take (pool.capacity - 1).toNat }

/-- Remembers another cell under the key of the most recent one. -/
def replaceFirst (pool : Pool) (cell : Cell) : Pool :=
  match pool.entries with
  | [] => pool
  | entry :: rest => { pool with entries := { entry with cell := cell } :: rest }

/-- The remembered cell that holds this very object. -/
def lookup (pool : Pool) (p : Payload) : Option Cell × Pool :=
  if pool.remembers p then
    match pool.get p with
    | (some entry, pool) => (if entry.cell.payload.same p then some entry.cell else none, pool)
    | (none, pool) => (none, pool)
  else (none, pool)

/-- Counts a cell in use; one that the pool handed out counts as shared, any other is remembered. -/
def record (pool : Pool) (cell : Cell) : Pool :=
  let pool := { pool with requests := pool.requests + 1 }
  if pool.remembers cell.payload then
    match pool.get cell.payload with
    | (some entry, pool) =>
        if entry.cell.id == cell.id then { pool with shared := pool.shared + 1 }
        else pool.replaceFirst cell
    | (none, pool) => pool.push cell.payload cell
  else pool

def recordAll (pool : Pool) (cells : List Cell) : Pool :=
  cells.foldl record pool

def clear (pool : Pool) : Pool :=
  { pool with entries := [] }

def size (pool : Pool) : Nat :=
  pool.entries.length

/-! ## Cells for payloads -/

/-- The remembered cell, or else a new one. -/
def obtain (pool : Pool) (mint : Mint) (p : Payload) : Cell × Pool × Mint :=
  match pool.lookup p with
  | (some cell, pool) => (cell, pool, mint)
  | (none, pool) =>
      let (cell, mint) := mint.cell p
      (cell, pool, mint)

/-- Obtains a cell and records it. -/
def cell (pool : Pool) (mint : Mint) (p : Payload) : Cell × Pool × Mint :=
  let (cell, pool, mint) := pool.obtain mint p
  (cell, pool.record cell, mint)

/-! ## Statistics -/

structure Stats where
  requests : Nat
  shared : Nat
  interned : Nat
  /-- A double, or the whole number zero before the first request. -/
  shareRate : Payload
  deriving Repr

def stats (pool : Pool) : Stats where
  requests := pool.requests
  shared := pool.shared
  interned := pool.size
  shareRate :=
    if pool.requests = 0 then .int 0
    else .float (Double.ofRatio false pool.shared pool.requests)

end Pool

end Peaks
