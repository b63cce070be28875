import Peaks.Benchmark.Report
import Peaks.Version.Bump

/-!
# The command line

Two programs under one roof: `benchmark` times the workloads on the machine's clock, and
`bump-version` writes a version into the files of the present directory.
-/

namespace Peaks
namespace Cli

/-! ## Benchmarks -/

/-- The machine's clock in seconds. -/
def readClock : IO Double := do
  return Double.ofRatio false (← IO.monoNanosNow) 1000000000

def printLines (lines : List String) : IO Unit :=
  lines.forM (IO.println ·)

/-- Says what stopped a program. -/
def complain (fault : Fault) : IO UInt32 := do
  IO.eprintln (fault.kind ++ ": " ++ fault.message)
  return 1

/-- Runs a workload between two readings of the clock. -/
def timeWorkload (w : Benchmark.Workload) : IO (Except Fault Benchmark.Timing) := do
  match w.prepare.outcome {} with
  | .error fault => return .error fault
  | .ok ((), bench) =>
      let started ← readClock
      match w.body.outcome bench with
      | .error fault => return .error fault
      | .ok ((), bench) =>
          let stopped ← readClock
          return (w.review.outcome bench).map fun _ => w.timing started stopped

/-- Runs workloads in turn and prints the table of their timings at the end. -/
def runWorkloads (rows : List (List String)) : List Benchmark.Workload → IO UInt32
  | [] => do
      printLines ("" :: Benchmark.table rows.reverse)
      return 0
  | w :: rest => do
      IO.println (Benchmark.announcement w)
      match ← timeWorkload w with
      | .error fault => complain fault
      | .ok timing =>
          match timing.rate? with
          | .error fault => complain fault
          | .ok rate =>
              IO.println (Benchmark.verdict timing rate)
              runWorkloads (Benchmark.cells timing rate :: rows) rest

def benchmark (args : List String) : IO UInt32 := do
  match Benchmark.commandLine.parse args with
  | .help =>
      IO.print Benchmark.helpText
      return 0
  | .misuse => return 2
  | .run numbers _ =>
      let plan := Benchmark.Plan.ofNumbers numbers
      match plan.generator? with
      | .error fault => complain fault
      | .ok rng =>
          printLines (Benchmark.header plan.sizeText)
          match plan.suite? rng with
          | .error fault => complain fault
          | .ok workloads => runWorkloads [] workloads

/-! ## Versions -/

/-- What stands under a name in the present directory. -/
def readEntry (path : String) : IO (Option Version.FileEntry) := do
  try
    return some (.file (← IO.FS.readFile path))
  catch
    | .noFileOrDirectory .. => return none
    | _ => return some .directory

def writeEntry (before : Version.Files) (path : String) : Version.FileEntry → IO Unit
  | .file text => do
      if before.lookup path ≠ some (.file text) then
        IO.FS.writeFile path text
  | .directory => return

def bumpVersion (args : List String) : IO UInt32 := do
  let found ← Version.targets.filterMapM fun target => do
    return (← readEntry target.path).map fun entry => (target.path, entry)
  let (outcome, files) := Version.bump args found
  files.forM fun (path, entry) => writeEntry found path entry
  IO.print outcome.output
  return outcome.exitCode.toUInt32

end Cli
end Peaks

def main (args : List String) : IO UInt32 := do
  match args with
  | "benchmark" :: rest => Peaks.Cli.benchmark rest
  | "bump-version" :: rest => Peaks.Cli.bumpVersion rest
  | _ =>
      IO.eprintln "usage: peaks (benchmark | bump-version) ..."
      return 2
