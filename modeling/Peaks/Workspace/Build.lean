import Peaks.NumericArray
import Peaks.Workspace.Batch

/-!
# Building functions, and programs over handles

- `Config` : the rules of a new function and the size of its pool
- `Workspace.create`, `Workspace.fromItems`, `Workspace.fromArrays` : new handles
- `Step`, `Workspace.perform` : one step of a program over named handles
-/

namespace Peaks

structure Config (σ : Type) where
  rules : Rules σ
  /-- Whether payload objects used at several points share a cell. -/
  internPayloads : Bool := true
  poolSize : Int := 1024

def Config.pool {σ : Type} (c : Config σ) : Pool where
  capacity := if c.internPayloads then c.poolSize else 0

namespace Workspace

variable {σ : Type}

/-! ## New handles -/

/-- A holding with a pool of its own and no points. -/
def addEmpty (config : Config σ) : Attempt (Workspace σ) (Holding σ) := do
  let pool ← addPool config.pool
  return { rules := config.rules, pool := pool }

/-- A handle on a new holding. -/
def install (name : String) (h : Holding σ) : Attempt (Workspace σ) Unit := do
  bind name (← addShare (← addHolding h))

/-- An empty function. -/
def create (name : String) (config : Config σ) : Attempt (Workspace σ) Unit := do
  install name (← addEmpty config)

/-- A function whose content comes from one edit of an empty store. The name is bound only if the
edit succeeds. -/
def build (name : String) (config : Config σ) (act : Rules σ → Attempt (Editor σ) Unit) :
    Attempt (Workspace σ) Unit := do
  let h ← addEmpty config
  let ((), store) ← editDetached h act
  install name { h with store := store }

def fromItems (name : String) (source : Source) (config : Config σ) : Attempt (Workspace σ) Unit :=
  build name config (Editor.load · source)

def fromArrays (name : String) (arguments values : NumericArray) (config : Config σ) :
    Attempt (Workspace σ) Unit :=
  build name config (Editor.loadArrays · arguments values)

end Workspace

/-! ## Programs -/

/-- One step of a program over named handles. -/
inductive Step (σ : Type)
  | create (name : String) (config : Config σ)
  | fromItems (name : String) (source : Source) (config : Config σ)
  | fromArrays (name : String) (arguments values : NumericArray) (config : Config σ)
  | copy (name source : String)
  | deepCopy (name source : String)
  | drop (name : String)
  | set (name : String) (argument value : Payload)
  | erase (name : String) (argument : Payload)
  | remove (name : String) (argument : Payload)
  | update (name : String) (source : Source)
  | updateFrom (name source : String)

/-- The handle that a step goes through. -/
def Step.name {σ : Type} : Step σ → String
  | .create name _ | .fromItems name _ _ | .fromArrays name _ _ _ | .copy name _
  | .deepCopy name _ | .drop name | .set name _ _ | .erase name _ | .remove name _
  | .update name _ | .updateFrom name _ => name

namespace Workspace

variable {σ : Type}

def perform : Step σ → Attempt (Workspace σ) Unit
  | .create name config => create name config
  | .fromItems name source config => fromItems name source config
  | .fromArrays name arguments values config => fromArrays name arguments values config
  | .copy name source => copy name source
  | .deepCopy name source => deepCopy name source
  | .drop name => drop name
  | .set name argument value => set name argument value
  | .erase name argument => erase name argument
  | .remove name argument => remove name argument
  | .update name source => update name source
  | .updateFrom name source => updateFrom name source

end Workspace

/-- What a caller says about a new function: orderings in whatever form they are given, and the
pool. -/
structure Settings where
  argumentOrder : Option OrderSource := none
  valueOrder : Option OrderSource := none
  internPayloads : Bool := true
  poolSize : Int := 1024

namespace Settings

/-- The orderings are looked at in turn, arguments first. -/
def config? (s : Settings) : Except Fault (Config Surroundings) := do
  let argument ← (s.argumentOrder.getD .absent).order?
  let value ← (s.valueOrder.getD .absent).order?
  return {
    rules := Rules.ofOrders argument value
    internPayloads := s.internPayloads
    poolSize := s.poolSize }

/-- Functions of arrays are always ordered naturally and take no other ordering, not even the
natural one. -/
def arrayConfig? (s : Settings) : Except Fault (Config Surroundings) :=
  if s.argumentOrder.isSome then .error (.unexpectedSetting "argument_order")
  else if s.valueOrder.isSome then .error (.unexpectedSetting "value_order")
  else s.config?

end Settings

end Peaks
