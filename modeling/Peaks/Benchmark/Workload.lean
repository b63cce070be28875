import Peaks.Benchmark.Timing
import Peaks.Twister
import Peaks.Workspace.Build

/-!
# Workloads

Five workloads on functions of pairs. Each has a part before the clock starts, the part that is
timed, and a part after the clock stopped.

- `Workload`      : the five of them with their rows
- `Workload.run`  : one of them on a scripted clock
- `drawPairs`     : random pairs
-/

namespace Peaks
namespace Benchmark

/-! ## Random pairs -/

/-- Values are drawn below this number, and forks add it to their values. -/
def valueRange : Nat := 8

/-- Draws so many pairs, each argument before its value. -/
def drawPairs (size : Int) : (count : Nat) → Twister → Except Fault (List (Nat × Nat) × Twister)
  | 0, t => .ok ([], t)
  | more + 1, t =>
      if size ≤ 0 then .error .emptyRange
      else do
        let (argument, t) := t.below size.toNat
        let (value, t) := t.below valueRange
        let (others, t) ← drawPairs size more t
        return ((argument, value) :: others, t)

def rowOf (pair : Nat × Nat) : Row :=
  [.int pair.1, .int pair.2]

/-! ## Tables

The model that a function is rebuilt from: keys in the order in which they were first put. -/

abbrev Table := List (Payload × Payload)

namespace Table

/-- A key that is already there keeps its place and its object. -/
def put (t : Table) (key value : Payload) : Except Fault Table := do
  key.hashable?
  if t.any (·.1.matchesItem key) then
    return t.map fun e => if e.1.matchesItem key then (e.1, value) else e
  return t ++ [(key, value)]

/-- Removes a key if it is there. An empty table does not look at the key. -/
def erase (t : Table) (key : Payload) : Except Fault Table := do
  if t.isEmpty then
    return t
  key.hashable?
  return t.eraseP (·.1.matchesItem key)

/-- A table of rows, each of which must be a pair. -/
def ofRowsFrom (t : Table) (index : Nat) : List Row → Except Fault Table
  | [] => .ok t
  | [key, value] :: rest => do ofRowsFrom (← t.put key value) (index + 1) rest
  | row :: _ => .error (.notAPair index row.length)

def ofRows (rows : List Row) : Except Fault Table :=
  ofRowsFrom [] 0 rows

end Table

/-! ## The five workloads -/

inductive Workload
  | incrementalBuild (base : List Row)
  | bulkBuild (base : List Row)
  | incrementalUpdates (base updates : List Row)
  | rebuildUpdates (base updates : List Row)
  | forks (base updates : List Row)

/-- What a workload works on. -/
structure Bench where
  workspace : Workspace Surroundings := { host := {} }
  model : Table := []

namespace Workload

def code : Workload → String
  | .incrementalBuild _ => "incremental_build"
  | .bulkBuild _ => "bulk_build"
  | .incrementalUpdates .. => "incremental_updates"
  | .rebuildUpdates .. => "rebuild_updates"
  | .forks .. => "cow_forks"

/-- The workload of a code. -/
def ofCode? (code : String) (base updates : List Row) : Option Workload :=
  [.incrementalBuild base, .bulkBuild base, .incrementalUpdates base updates,
   .rebuildUpdates base updates, .forks base updates].find? (·.code == code)

def title : Workload → String
  | .incrementalBuild _ => "Incremental build"
  | .bulkBuild _ => "Bulk build (from_items)"
  | .incrementalUpdates .. => "Incremental updates"
  | .rebuildUpdates .. => "Rebuild per update"
  | .forks .. => "Fork + first write"

def operations : Workload → Nat
  | .incrementalBuild base => base.length
  | .bulkBuild base => base.length
  | .incrementalUpdates _ updates => updates.length
  | .rebuildUpdates _ updates => updates.length
  | .forks _ updates => updates.length

def unit : Workload → String
  | .incrementalBuild _ => "set_value"
  | .bulkBuild _ => "pairs"
  | .incrementalUpdates .. => "edits"
  | .rebuildUpdates .. => "edits"
  | .forks .. => "forks"

def caption (w : Workload) : String :=
  toString w.operations ++ " " ++ w.unit

/-! ## What they do -/

/-- Natural orderings and a pool of the usual size. -/
def config : Config Surroundings where
  rules := Rules.ofOrders .natural .natural

def onWorkspace {α : Type} (attempt : Attempt (Workspace Surroundings) α) : Attempt Bench α :=
  attempt.within Bench.workspace (fun w b => { b with workspace := w })

/-- Runs an attempt on every pair of some rows. -/
def forRows (rows : List Row) (visit : Payload → Payload → Attempt Bench Unit) :
    Attempt Bench Unit :=
  Source.foldRows (fun _ argument value => visit argument value) () rows

def isZero (value : Payload) : Bool :=
  value.eq (.int 0)

/-- A value with the value range added. -/
def raised (value : Payload) : Except Fault Payload :=
  match value.content with
  | .bool b => .ok (.int ((if b then 1 else 0) + valueRange))
  | .int n => .ok (.int (n + valueRange))
  | .float x => .ok (.float (x.add (Double.ofInt valueRange)))
  | .text _ => .error (.cannotConcatenate .text)
  | .tuple _ => .error (.cannotConcatenate .tuple)
  | .list _ => .error (.cannotConcatenate .list)
  | other => .error (.cannotAdd other.kind)

def loadFunction (base : List Row) : Attempt Bench Unit :=
  onWorkspace (Workspace.fromItems "f" { rows := base } config)

/-- Before the clock starts. -/
def prepare : Workload → Attempt Bench Unit
  | .incrementalBuild _ => pure ()
  | .bulkBuild _ => pure ()
  | .incrementalUpdates base _ => loadFunction base
  | .rebuildUpdates base _ => do
      let model ← Attempt.ofExcept (Table.ofRows base)
      modify ({ · with model := model })
  | .forks base _ => loadFunction base

/-- The part that is timed. -/
def body : Workload → Attempt Bench Unit
  | .incrementalBuild base => do
      onWorkspace (Workspace.create "f" config)
      forRows base fun argument value => onWorkspace (Workspace.set "f" argument value)
  | .bulkBuild base => loadFunction base
  | .incrementalUpdates _ updates =>
      forRows updates fun argument value =>
        onWorkspace (if isZero value then Workspace.erase "f" argument
          else Workspace.set "f" argument value)
  | .rebuildUpdates _ updates =>
      forRows updates fun argument value => do
        let model := (← get).model
        let model ← Attempt.ofExcept
          (if isZero value then model.erase argument else model.put argument value)
        modify ({ · with model := model })
        onWorkspace (Workspace.fromItems "f" (.ofPairs model) config)
  | .forks _ updates =>
      forRows updates fun argument value => do
        onWorkspace (Workspace.copy "fork" "f")
        let value ← Attempt.ofExcept (raised value)
        onWorkspace (Workspace.set "fork" argument value)

/-- After the clock stopped. -/
def review : Workload → Attempt Bench Unit
  | .incrementalUpdates .. => do
      let _ ← onWorkspace (Workspace.verify "f")
  | _ => pure ()

/-! ## On a clock -/

def timing (w : Workload) (started stopped : Double) : Timing where
  name := w.title
  workload := w.caption
  operations := w.operations
  seconds := stopped.sub started

/-- Takes the next reading of a scripted clock. -/
def reading? : List Double → Except Fault (Double × List Double)
  | [] => .error (.unboundName "clock")
  | now :: later => .ok (now, later)

/-- Runs a workload from a new bench on a scripted clock: its timing, what it logged, and the
readings that are left. -/
def run (w : Workload) (clock : List Double) : Except Fault (Timing × Journal × List Double) := do
  let ((), bench) ← w.prepare.outcome {}
  let (started, clock) ← reading? clock
  let ((), bench) ← w.body.outcome bench
  let (stopped, clock) ← reading? clock
  let ((), bench) ← w.review.outcome bench
  return (w.timing started stopped, bench.workspace.journal, clock)

end Workload

end Benchmark
end Peaks
