import Peaks.Workspace.Handle

/-!
# Batches

A batch of pairs is set on a private copy and published when all of them went in, so that either all
of it lands or nothing does.

- `Batch.start`, `Batch.put`, `Batch.publish` : the three stages
- `Workspace.update` : all of them over one source of pairs
-/

namespace Peaks

/-- A batch in the making. -/
structure Batch (σ : Type) where
  /-- The handle that the batch is for. -/
  name : String
  /-- The shared entry that the handle leased when the batch began. -/
  entry : Nat
  /-- The private copy. -/
  copy : Holding σ
  /-- How many pairs changed something. -/
  changed : Nat := 0

namespace Batch

variable {σ : Type}

def start (name : String) : Attempt (Workspace σ) (Batch σ) := do
  let entry ← Workspace.leased name
  let h ← Workspace.holding (← Workspace.share entry).content
  return { name := name, entry := entry, copy := h.clone }

/-- Sets one pair on the private copy. -/
def put (b : Batch σ) (argument value : Payload) : Attempt (Workspace σ) (Batch σ) := do
  let (changed, store) ← Workspace.editDetached b.copy (Editor.set · argument value)
  return { b with
    copy := { b.copy with store := store }
    changed := if changed then b.changed + 1 else b.changed }

/-- If the entry that the batch began with has other owners, the handle moves to the private copy;
if not, its store takes over the content of the copy. -/
def publish (b : Batch σ) : Attempt (Workspace σ) Unit := do
  let shared ← Workspace.share b.entry
  if shared.isShared then
    Workspace.rebind b.name (← Workspace.addShare (← Workspace.addHolding b.copy))
    Workspace.count b.name fun t => { t with clones := t.clones + 1 }
  else
    let h ← Workspace.holding shared.content
    Workspace.setStore shared.content (h.store.assign b.copy.store)
  Workspace.count b.name fun t => { t with sets := t.sets + b.changed }

end Batch

namespace Workspace

variable {σ : Type}

/-- Sets all pairs of a source at once, or none of them. A failed batch is told, then counted. -/
def update (name : String) (source : Source) : Attempt (Workspace σ) Unit := do
  let batch ← Batch.start name
  match ← (source.fold Batch.put batch).settle with
  | .ok batch => batch.publish
  | .error fault =>
      report "Batch update rolled back" fault
      count name fun t => { t with rollbacks := t.rollbacks + 1 }
      throw fault

/-- Sets all pairs that another handle shows. -/
def updateFrom (name source : String) : Attempt (Workspace σ) Unit := do
  update name (.ofPairs (← store source).pairs)

end Workspace

end Peaks
