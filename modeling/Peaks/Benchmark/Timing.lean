import Peaks.Decimal.Fixed
import Peaks.Fault

/-!
# Timings

- `Benchmark.Timing`      : one workload with its number of operations and the seconds it took
- `Benchmark.Timing.rate` : operations per second
-/

namespace Peaks
namespace Benchmark

structure Timing where
  name : String
  workload : String
  operations : Int
  seconds : Double
  deriving DecidableEq, Repr

namespace Timing

/-- Operations per second: the quotient of two doubles, or infinite if no time passed. A number of
operations beyond all doubles has no rate. -/
def rate? (t : Timing) : Except Fault Double :=
  if t.seconds.isPositive then
    let operations := Double.ofInt t.operations
    match operations.view with
    | .infinite _ => .error .numberTooLarge
    | _ => .ok (operations.div t.seconds)
  else
    .ok (Double.infinity false)

/-- Thousands of operations per second. -/
def performanceText (rate : Double) : String :=
  Decimal.Fixed.text 1 (rate.div (Double.ofInt 1000)) ++ "K ops/sec"

def timeText (t : Timing) : String :=
  Decimal.Fixed.text 1 (t.seconds.mul (Double.ofInt 1000)) ++ " ms"

end Timing

end Benchmark
end Peaks
