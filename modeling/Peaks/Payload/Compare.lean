import Peaks.Attempt

/-!
# Comparing payloads

- `Payload.eq`        : equality of contents; never fails
- `Payload.lt?`       : `<`, which only some pairs of kinds have
- `Payload.compare?`  : three-way comparison by `<` alone
- `Payload.hashable?` : whether a payload may be a key
-/

namespace Peaks
namespace Payload

/-! ## Equality -/

mutual

/-- Equality of contents: numbers by value, texts, and sequences item by item. A number that is not
equal to itself is still the same item as itself. -/
def eq : Payload → Payload → Bool
  | .tagged _ p, q => eq p q
  | .tuple ps, q =>
      match q.content with
      | .tuple qs => allEq ps qs
      | _ => false
  | .list ps, q =>
      match q.content with
      | .list qs => allEq ps qs
      | _ => false
  | .null, q =>
      match q.content with
      | .null => true
      | _ => false
  | .text s, q =>
      match q.content with
      | .text t => s == t
      | _ => false
  | .weak m, q =>
      match q.content with
      | .weak n => m == n
      | _ => false
  | .bool a, q =>
      match q.number? with
      | some n => Number.eq (.whole (if a then 1 else 0)) n
      | none => false
  | .int m, q =>
      match q.number? with
      | some n => Number.eq (.whole m) n
      | none => false
  | .float x, q =>
      match q.number? with
      | some n => Number.eq (.double x) n
      | none => false

def allEq : List Payload → List Payload → Bool
  | [], [] => true
  | p :: ps, q :: qs => (same p q || eq p q) && allEq ps qs
  | _, _ => false

end

/-- The test by which sequences and keys tell their items apart: the same object or equal. Whole
numbers need not be looked at twice. -/
def matchesItem : Payload → Payload → Bool
  | .int m, .int n => m == n
  | p, q => same p q || eq p q

/-! ## Less than -/

mutual

/-- `<` on payloads: numbers by value, texts by code points, sequences by the first place where
their items differ, weak numbers by their tens. -/
def lt? : Payload → Payload → Except Fault Bool
  | .tagged _ p, q => lt? p q
  | .tuple ps, q =>
      match q.content with
      | .tuple qs => seqLt? ps qs
      | _ => .error (.unordered .tuple q.kind)
  | .list ps, q =>
      match q.content with
      | .list qs => seqLt? ps qs
      | _ => .error (.unordered .list q.kind)
  | .null, q => .error (.unordered .null q.kind)
  | .text s, q =>
      match q.content with
      | .text t => .ok (s < t)
      | _ => .error (.unordered .text q.kind)
  | .weak m, q =>
      match q.content with
      | .weak n => .ok (m.fdiv 10 < n.fdiv 10)
      | _ => .error (.unordered .weak q.kind)
  | .bool a, q =>
      match q.number? with
      | some n => .ok (Number.lt (.whole (if a then 1 else 0)) n)
      | none => .error (.unordered .bool q.kind)
  | .int m, q =>
      match q.number? with
      | some n => .ok (Number.lt (.whole m) n)
      | none => .error (.unordered .int q.kind)
  | .float x, q =>
      match q.number? with
      | some n => .ok (Number.lt (.double x) n)
      | none => .error (.unordered .float q.kind)

def seqLt? : List Payload → List Payload → Except Fault Bool
  | [], [] => .ok false
  | [], _ :: _ => .ok true
  | _ :: _, [] => .ok false
  | p :: ps, q :: qs => if same p q || eq p q then seqLt? ps qs else lt? p q

end

/-- Negative if `p < q`, positive if `q < p`, asked in this order, and zero otherwise. -/
def compare? (p q : Payload) : Except Fault Int := do
  if ← lt? p q then
    return -1
  if ← lt? q p then
    return 1
  return 0

/-! ## Keys -/

mutual

/-- A list or weak number, or a tuple that holds one, is no key; the first offender is named. -/
def hashable? : Payload → Except Fault Unit
  | .list _ => .error (.unhashable Kind.list.name)
  | .weak _ => .error (.unhashable Kind.weak.name)
  | .tuple items => allHashable? items
  | .tagged _ p => hashable? p
  | .null => .ok ()
  | .bool _ => .ok ()
  | .int _ => .ok ()
  | .float _ => .ok ()
  | .text _ => .ok ()

def allHashable? : List Payload → Except Fault Unit
  | [] => .ok ()
  | p :: ps => do
      hashable? p
      allHashable? ps

end

def isHashable (p : Payload) : Bool :=
  match p.hashable? with
  | .ok _ => true
  | .error _ => false

end Payload

end Peaks
