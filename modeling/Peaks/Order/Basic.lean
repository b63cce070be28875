import Peaks.Payload.Compare
import Peaks.Surroundings

/-!
# Orderings

An ordering answers three-way comparisons: negative when the first operand comes before the second,
positive when it comes after, zero when neither does. Operands may be tied without being equal.

- `Order`          : orderings built from `<`, from rules, and from other orderings
- `Order.compare`  : the comparison itself
- `OrderSource`    : what may be given where an ordering is wanted, and `OrderSource.order?`
-/

namespace Peaks

/-- A projection of payloads, with the name it is shown by. -/
structure KeyRule where
  name : String
  apply : Payload → Except Fault Payload

/-- A strict "less" test, with the name it is shown by. -/
structure LessRule where
  name : String
  holds : Payload → Payload → Except Fault Bool

/-- A three-way comparison, with the name it is shown by. -/
structure ThreeWayRule where
  name : String
  compare : Payload → Payload → Except Fault Int

inductive Order
  /-- The payloads' own `<`. -/
  | natural
  /-- The base ordering, turned around. -/
  | reversed (base : Order)
  /-- The base ordering of the payloads' keys. -/
  | keyed (key : KeyRule) (base : Order)
  | lessThan (less : LessRule)
  | threeWay (rule : ThreeWayRule)
  /-- The base ordering, each comparison counted on a meter. -/
  | metered (meter : Nat) (base : Order)
  /-- A base that cannot compare at all: how it is shown and what kind of thing it is. -/
  | inert (shown kind : String)

namespace Order

/-- Three-way comparison by a strict "less" test, asked both ways. -/
def compareByLess (less : Payload → Payload → Except Fault Bool) (a b : Payload) :
    Except Fault Int := do
  if ← less a b then
    return -1
  if ← less b a then
    return 1
  return 0

/-- Compares two payloads. A keyed ordering asks its base whether it can compare at all before it
looks for the keys. -/
def compare : Order → Payload → Payload → Attempt Surroundings Int
  | .natural, a, b => Attempt.ofExcept (a.compare? b)
  | .reversed base, a, b => base.compare b a
  | .keyed _ (.inert _ kind), _, _ => throw (.cannotCompare kind)
  | .keyed key base, a, b => do
      let keyA ← Attempt.ofExcept (key.apply a)
      let keyB ← Attempt.ofExcept (key.apply b)
      base.compare keyA keyB
  | .lessThan less, a, b => Attempt.ofExcept (compareByLess less.holds a b)
  | .threeWay rule, a, b => Attempt.ofExcept (rule.compare a b)
  | .metered meter base, a, b => do
      Surroundings.tickMeter meter
      base.compare a b
  | .inert _ kind, _, _ => throw (.cannotCompare kind)

/-! ## Text -/

/-- The name of an ordering's class. -/
def className : Order → String
  | .natural => "NaturalOrdering"
  | .reversed _ => "ReversedOrdering"
  | .keyed .. => "KeyOrdering"
  | .lessThan _ => "LessThanOrdering"
  | .threeWay _ => "FunctionOrdering"
  | .metered .. => "Failing"
  | .inert _ kind => kind

def display : Order → String
  | .natural => "NaturalOrdering()"
  | .reversed base => "ReversedOrdering(" ++ base.display ++ ")"
  | .keyed key base => "KeyOrdering(<key " ++ key.name ++ ">, " ++ base.display ++ ")"
  | .lessThan less => "LessThanOrdering(<less " ++ less.name ++ ">)"
  | .threeWay rule => "FunctionOrdering(<cmp " ++ rule.name ++ ">)"
  | .metered .. => "Failing()"
  | .inert shown _ => shown

end Order

/-! ## What is given as an ordering -/

inductive OrderSource
  | absent
  | order (order : Order)
  | function (rule : ThreeWayRule)
  | payload (p : Payload)

/-- Nothing means the natural ordering, and a bare three-way function is wrapped. -/
def OrderSource.order? : OrderSource → Except Fault Order
  | .absent => .ok .natural
  | .order o => .ok o
  | .function rule => .ok (.threeWay rule)
  | .payload p =>
      match p.content with
      | .null => .ok .natural
      | q => .error (.notAnOrdering q.kind.name)

/-- The base of another ordering is taken as it is. -/
def OrderSource.base : OrderSource → Order
  | .absent => .natural
  | .order o => o
  | .function rule => .inert ("<cmp " ++ rule.name ++ ">") "function"
  | .payload p =>
      match p.content with
      | .null => .natural
      | q => .inert q.display q.kind.name

/-! ## Derived tests -/

/-- A comparison together with the effects it may have. -/
abbrev Comparator (σ : Type) := Payload → Payload → Attempt σ Int

namespace Comparator

variable {σ : Type}

/-- Neither operand comes before the other. -/
def equivalent (compare : Comparator σ) (a b : Payload) : Attempt σ Bool := do
  return (← compare a b) == 0

/-- The first operand comes before the second or is tied with it. -/
def lessEqual (compare : Comparator σ) (a b : Payload) : Attempt σ Bool := do
  return (← compare a b) ≤ 0

end Comparator

/-- The orderings of a function's arguments and values, and the allocator that its maxima index asks
before it grows. -/
structure Rules (σ : Type) where
  argument : Comparator σ
  value : Comparator σ
  allocate : Attempt σ Unit

namespace Rules

/-- Both orderings natural and room for every entry. -/
def natural {σ : Type} : Rules σ where
  argument a b := Attempt.ofExcept (a.compare? b)
  value a b := Attempt.ofExcept (a.compare? b)
  allocate := pure ()

/-- Two orderings, and the allocator of the surroundings. -/
def ofOrders (argument value : Order) : Rules Surroundings where
  argument := argument.compare
  value := value.compare
  allocate := Surroundings.allocate

end Rules

end Peaks
