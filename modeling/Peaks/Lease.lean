import Peaks.Payload.Compare

/-!
# Leases

Something shared is counted by its owners. A lease is one owner's claim on it, which can move to
another shared thing or be given up.

- `Shared`       : a content with its number of owners
- `Lease`        : a claim on one entry of a table of shared things
- `Lease.rebind` : the claim moves and the owner it leaves behind is taken off
-/

namespace Peaks

/-- A content and how many owners it has. The count may be off if somebody miscounts. -/
structure Shared (α : Type) where
  content : α
  owners : Int := 1
  deriving Repr

namespace Shared

variable {α : Type}

def acquire (s : Shared α) : Shared α :=
  { s with owners := s.owners + 1 }

def release (s : Shared α) : Shared α :=
  { s with owners := s.owners - 1 }

/-- More than one owner. -/
def isShared (s : Shared α) : Bool :=
  1 < s.owners

/-- Equal contents and equal counts. -/
def eq (s t : Shared Payload) : Bool :=
  s.content.matchesItem t.content && s.owners == t.owners

end Shared

/-- Shared things by number. -/
abbrev SharedTable (α : Type) := List (Shared α)

/-- A claim on one entry, or none once it was given up. -/
structure Lease where
  claim : Option Nat
  deriving DecidableEq, Repr

namespace Lease

variable {α : Type}

def on (entry : Nat) : Lease :=
  { claim := some entry }

/-- The entry a lease claims. -/
def claimed? (l : Lease) : Except Fault Nat :=
  match l.claim with
  | some entry => .ok entry
  | none => .error .leaseReleased

/-- Takes one owner off the entry that a lease claims. -/
def releaseClaim (l : Lease) (table : SharedTable α) : SharedTable α :=
  match l.claim with
  | some entry => table.modify entry Shared.release
  | none => table

/-- Moves the claim to another entry, whose owners are not counted up. -/
def rebind (l : Lease) (entry : Nat) (table : SharedTable α) : Lease × SharedTable α :=
  (on entry, l.releaseClaim table)

def release (l : Lease) (table : SharedTable α) : Lease × SharedTable α :=
  ({ claim := none }, l.releaseClaim table)

end Lease

end Peaks
