import Peaks.Attempt

/-!
# Sources of pairs

A source yields rows one after another and may give up at its end, with any fault. A row is meant to
be an argument and its value; one of another length is noticed when it is reached.

- `Source.traverse` : runs an attempt on every pair and collects the results
- `Source.fold`     : threads a value through all pairs
-/

namespace Peaks

abbrev Row := List Payload

def Row.pair? : Row → Except Fault (Payload × Payload)
  | [argument, value] => .ok (argument, value)
  | _ :: _ :: _ :: _ => .error .rowTooLong
  | row => .error (.rowTooShort row.length)

structure Source where
  rows : List Row
  /-- What the source gives up with after its last row. -/
  failure : Option Fault := none
  deriving Repr

/-- A text stands for giving up with this text. -/
instance : CoeTail (Option String) (Option Fault) :=
  ⟨Option.map .sourceFailed⟩

namespace Source

variable {τ α β : Type}

def ofPairs (pairs : List (Payload × Payload)) : Source where
  rows := pairs.map fun p => [p.1, p.2]

def traverseRows (visit : Payload → Payload → Attempt τ α) : List Row → Attempt τ (List α)
  | [] => pure []
  | row :: rest => do
      let (argument, value) ← Attempt.ofExcept row.pair?
      let a ← visit argument value
      return a :: (← traverseRows visit rest)

def foldRows (step : β → Payload → Payload → Attempt τ β) : β → List Row → Attempt τ β
  | b, [] => pure b
  | b, row :: rest => do
      let (argument, value) ← Attempt.ofExcept row.pair?
      foldRows step (← step b argument value) rest

/-- The end of a source, where it may give up. -/
def finish (s : Source) : Attempt τ Unit :=
  match s.failure with
  | some fault => throw fault
  | none => pure ()

def traverse (s : Source) (visit : Payload → Payload → Attempt τ α) : Attempt τ (List α) := do
  let results ← traverseRows visit s.rows
  s.finish
  return results

def fold (s : Source) (step : β → Payload → Payload → Attempt τ β) (b : β) : Attempt τ β := do
  let result ← foldRows step b s.rows
  s.finish
  return result

end Source

end Peaks
