import Peaks.Attempt

/-!
# Surroundings

What orderings and the allocator keep between calls: how often each metered ordering compared, and
the countdowns to failures that were ordered in advance.

- `Meter`        : one comparison counter with its countdown
- `Surroundings` : all meters and the allocator's countdown
-/

namespace Peaks

/-- A countdown lets that many calls pass; the next call fails and ends the countdown. One that
starts below zero never comes to its end. -/
abbrev Countdown := Option Int

/-- The countdown after one call, and whether the call fails. -/
def Countdown.tick : Countdown → Countdown × Bool
  | none => (none, false)
  | some n => if n = 0 then (none, true) else (some (n - 1), false)

/-- Counts the comparisons of one ordering. -/
structure Meter where
  comparisons : Nat := 0
  countdown : Countdown := none
  deriving Repr, Inhabited

/-- A failing comparison is counted too. -/
def Meter.tick (m : Meter) : Meter × Bool :=
  let (countdown, fails) := m.countdown.tick
  ({ comparisons := m.comparisons + 1, countdown := countdown }, fails)

structure Surroundings where
  meters : List Meter := []
  allocation : Countdown := none
  deriving Repr, Inhabited

namespace Surroundings

def meter (s : Surroundings) (id : Nat) : Meter :=
  s.meters.getD id {}

def setMeter (s : Surroundings) (id : Nat) (m : Meter) : Surroundings :=
  { s with meters := s.meters.set id m }

/-- Registers one more meter and returns its number. -/
def addMeter (s : Surroundings) : Nat × Surroundings :=
  (s.meters.length, { s with meters := s.meters ++ [{}] })

/-- Counts one comparison on a meter, which may be the one that fails. -/
def tickMeter (id : Nat) : Attempt Surroundings Unit := do
  let (m, fails) := ((← get).meter id).tick
  modify (·.setMeter id m)
  if fails then
    throw .injectedFailure

/-- Asks for room for one entry, which may be refused. -/
def allocate : Attempt Surroundings Unit := do
  let (countdown, fails) := (← get).allocation.tick
  modify ({ · with allocation := countdown })
  if fails then
    throw .allocationFailure

/-! ## Preparing failures and reading counters -/

def arm (s : Surroundings) (id : Nat) (n : Int) : Surroundings :=
  s.setMeter id { s.meter id with countdown := some n }

/-- Ends a countdown and returns what was left of it. -/
def disarm (s : Surroundings) (id : Nat) : Countdown × Surroundings :=
  ((s.meter id).countdown, s.setMeter id { s.meter id with countdown := none })

def armAllocation (s : Surroundings) (n : Int) : Surroundings :=
  { s with allocation := some n }

/-- The comparisons counted since the last reading. -/
def readComparisons (s : Surroundings) (id : Nat) : Nat × Surroundings :=
  ((s.meter id).comparisons, s.setMeter id { s.meter id with comparisons := 0 })

end Surroundings

end Peaks
