import Peaks.Arguments
import Peaks.Benchmark.Workload
import Peaks.Text.Wrap

/-!
# The benchmark report

What the benchmark program prints: a header in a box, two lines for each workload, and a table of
all timings.

- `Benchmark.header`, `Benchmark.table` : the parts
- `Benchmark.program` : the program on a scripted clock
-/

namespace Peaks
namespace Benchmark

/-! ## Layout -/

def blanks (n : Nat) : String :=
  String.ofList (List.replicate n ' ')

def rule (mark : Char) (n : Nat) : String :=
  String.ofList (List.replicate n mark)

/-- The text in the middle of a line; of an odd rest the larger half goes to the right. -/
def centred (width : Nat) (s : String) : String :=
  let left := (width - s.length) / 2
  blanks left ++ s ++ blanks (width - s.length - left)

def padRight (width : Nat) (s : String) : String :=
  s ++ blanks (width - s.length)

def padLeft (width : Nat) (s : String) : String :=
  blanks (width - s.length) ++ s

/-- Lines in the middle of a page. They keep one left margin, which the longest of them sets. -/
def centredBlock (width : Nat) (lines : List String) : List String :=
  let margin := (width - lines.foldl (fun n line => max n line.length) 0) / 2
  lines.map fun line => padRight width (blanks margin ++ line)

/-- The header is a box of eighty columns with its title in the upper border. -/
def header (size : String) : List String :=
  let lines := Text.wrapped 76 ("FnMaxima Benchmark Suite (" ++ size ++ " points)")
  ["╭" ++ rule '─' 28 ++ " FnMaxima Benchmarks " ++ rule '─' 29 ++ "╮"] ++
  (centredBlock 76 lines).map (fun line => "│ " ++ line ++ " │") ++
  ["╰" ++ rule '─' 78 ++ "╯", ""]

/-- The columns of the table: headings, and whether they are aligned to the right. -/
def columns : List (String × Bool) :=
  [("Benchmark", false), ("Workload", false), ("Performance", true), ("Time", true)]

/-- One row of cells as wide as their columns. -/
def tableRow (widths : List Nat) (cells : List String) : String :=
  let padded := (columns.zip (widths.zip cells)).map fun (column, width, cell) =>
    if column.2 then padLeft width cell else padRight width cell
  "  " ++ String.intercalate "   " padded ++ "  "

/-- Each column is as wide as its longest cell or heading. -/
def columnWidths (rows : List (List String)) : List Nat :=
  rows.foldl (fun widths row => widths.zipWith max (row.map String.length))
    (columns.map (·.1.length))

def table (rows : List (List String)) : List String :=
  let widths := columnWidths rows
  let total := widths.foldl (· + ·) 13
  [centred total "Final Benchmark Results",
   blanks total,
   tableRow widths (columns.map (·.1)),
   " " ++ rule '━' (total - 2) ++ " "] ++
  rows.map (tableRow widths) ++
  [blanks total]

/-! ## One workload -/

/-- What is printed before a workload runs. -/
def announcement (w : Workload) : String :=
  "Running " ++ w.code ++ "..."

/-- What is printed after a workload ran. -/
def verdict (t : Timing) (rate : Double) : String :=
  "✓ " ++ t.name ++ ": " ++ Decimal.Fixed.grouped rate ++ " ops/sec"

/-- The cells of one timing. -/
def cells (t : Timing) (rate : Double) : List String :=
  [t.name, t.workload, Timing.performanceText rate, t.timeText]

/-! ## The suite -/

/-- A number that is counted with, which an option may have been left without. -/
def number? : Option Int → Except Fault Int
  | some n => .ok n
  | none => .error .noNumber

/-- The five workloads in turn. Rebuilding is tried on a twentieth of the updates, but on one at
least. -/
def suite (base updates : List Row) : List Workload :=
  [.incrementalBuild base, .bulkBuild base, .incrementalUpdates base updates,
   .rebuildUpdates base (updates.take (max 1 (updates.length / 20))), .forks base updates]

/-- The rows of a suite: as many for the base as the size says, then the updates. -/
def drawSuite (size updates : Option Int) (rng : Twister) : Except Fault (List Workload) := do
  let size ← number? size
  let (base, rng) ← drawPairs size size.toNat rng
  let updates ← number? updates
  let (edits, _) ← drawPairs size updates.toNat rng
  return suite (base.map rowOf) (edits.map rowOf)

/-- Runs workloads in turn: the lines printed on the way and the rows of the table. -/
def runAll (clock : List Double) : List Workload → Except Fault (List String × List (List String))
  | [] => .ok ([], [])
  | w :: rest => do
      let (timing, _, clock) ← w.run clock
      let rate ← timing.rate?
      let (lines, rows) ← runAll clock rest
      return (announcement w :: verdict timing rate :: lines, cells timing rate :: rows)

def report (size : String) (lines : List String) (rows : List (List String)) : List String :=
  header size ++ lines ++ [""] ++ table rows

/-! ## The program -/

def commandLine : CommandLine where
  numbers := ["--size", "--updates", "--seed"]
  words := 0

/-- What the program is asked to do. An option given without a number has none here either, which is
noticed when the number is needed. -/
structure Plan where
  size : Option Int
  updates : Option Int
  seed : Option Int
  deriving DecidableEq, Repr

namespace Plan

/-- Options that are not given have their usual values. -/
def ofNumbers (numbers : List (String × Option Int)) : Plan where
  size := (numbers.lookup "--size").getD (some 2000)
  updates := (numbers.lookup "--updates").getD (some 2000)
  seed := (numbers.lookup "--seed").getD (some 0)

def sizeText (p : Plan) : String :=
  p.size.elim "[]" toString

/-- The generator that all rows are drawn from. -/
def generator? (p : Plan) : Except Fault Twister :=
  match p.seed with
  | some seed => .ok (.ofSeed seed)
  | none => .error .noSeed

def suite? (p : Plan) (rng : Twister) : Except Fault (List Workload) :=
  drawSuite p.size p.updates rng

end Plan

def helpText : String :=
  printedLines [
    "usage: benchmark.py [-h] [--size SIZE] [--updates UPDATES] [--seed SEED]",
    "",
    "FnMaxima performance benchmarks",
    "",
    "options:",
    "  -h, --help         show this help message and exit",
    "  --size SIZE        Points per function",
    "  --updates UPDATES  Edits to time",
    "  --seed SEED        Random seed"]

/-- The program on a scripted clock. -/
def program (args : List String) (clock : List Double) : Except Fault Outcome :=
  match commandLine.parse args with
  | .help => .ok { exitCode := 0, output := helpText }
  | .misuse => .ok { exitCode := 2, output := "" }
  | .run numbers _ => do
      let plan := Plan.ofNumbers numbers
      let workloads ← plan.suite? (← plan.generator?)
      let (lines, rows) ← runAll clock workloads
      return { exitCode := 0, output := printedLines (report plan.sizeText lines rows) }

end Benchmark
end Peaks
