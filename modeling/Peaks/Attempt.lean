import Peaks.Fault

/-!
# Attempts

An attempt runs on a state and either returns a result or fails with a fault. The state is kept in
both cases: what was done before a fault stays done unless somebody undoes it.

- `Attempt`        : the type of attempts
- `Attempt.within` : an attempt on one part of a larger state
- `Attempt.settle` : an attempt whose fault becomes a result
- `Attempt.outcome` : an attempt run from a given state
-/

namespace Peaks

/-- A computation on a state `σ` that may fail and keeps its state when it does. -/
abbrev Attempt (σ α : Type) := EStateM Fault σ α

namespace Attempt

variable {σ τ α : Type}

/-- A result that is already known. -/
def ofExcept : Except Fault α → Attempt σ α
  | .ok a => pure a
  | .error fault => throw fault

/-- A result that may be missing, which is a fault then. -/
def ofOption (fault : Fault) : Option α → Attempt σ α
  | some a => pure a
  | none => throw fault

/-- Runs an attempt on the part of the state that `part` reads and `put` writes back. -/
def within (part : τ → σ) (put : σ → τ → τ) (attempt : Attempt σ α) : Attempt τ α := fun s =>
  match attempt (part s) with
  | .ok a t => .ok a (put t s)
  | .error fault t => .error fault (put t s)

/-- Runs an attempt to its end and returns how it ended. -/
def settle (attempt : Attempt σ α) : Attempt σ (Except Fault α) := fun s =>
  match attempt s with
  | .ok a t => .ok (.ok a) t
  | .error fault t => .ok (.error fault) t

/-- Runs an attempt from a state; a fault loses the state. -/
def outcome (attempt : Attempt σ α) (s : σ) : Except Fault (α × σ) :=
  match attempt s with
  | .ok a t => .ok (a, t)
  | .error fault _ => .error fault

end Attempt

end Peaks
