import Peaks.Double

/-!
# Payloads

Arguments and values of a function are payloads. Two payloads may be equal without being the same
object, so each carries what tells it apart:

- `Payload`      : the written form of an object; `tagged` is another object of the same content
- `Payload.same` : whether two written forms name one object
- `Kind`         : what sort of thing a payload is
-/

namespace Peaks

/-- What tells apart two objects of one content. -/
inductive Tag
  | number (k : Int)
  | word (s : String)
  /-- An object made by the program itself, the `n`-th of its run. -/
  | fresh (n : Nat)
  deriving DecidableEq, Repr

/-- An object as it is written. -/
inductive Payload
  | null
  | bool (b : Bool)
  | int (n : Int)
  | float (x : Double)
  | text (s : String)
  | tuple (items : List Payload)
  | list (items : List Payload)
  /-- A number ordered by its tens only. -/
  | weak (n : Int)
  | tagged (tag : Tag) (content : Payload)
  deriving Repr, Inhabited

/-! ## Kinds -/

inductive Kind
  | null
  | bool
  | int
  | float
  | text
  | tuple
  | list
  | weak
  deriving DecidableEq, Repr

/-- The name of a kind in messages. -/
def Kind.name : Kind → String
  | .null => "NoneType"
  | .bool => "bool"
  | .int => "int"
  | .float => "float"
  | .text => "str"
  | .tuple => "tuple"
  | .list => "list"
  | .weak => "Weak"

namespace Payload

def kind : Payload → Kind
  | .null => .null
  | .bool _ => .bool
  | .int _ => .int
  | .float _ => .float
  | .text _ => .text
  | .tuple _ => .tuple
  | .list _ => .list
  | .weak _ => .weak
  | .tagged _ p => p.kind

/-- The payload without its outer tags. -/
def content : Payload → Payload
  | .tagged _ p => p.content
  | p => p

/-! ## Identity -/

mutual

/-- Whether two payloads are written alike. -/
def alike : Payload → Payload → Bool
  | .null, .null => true
  | .bool a, .bool b => a == b
  | .int m, .int n => m == n
  | .float x, .float y => x == y
  | .text s, .text t => s == t
  | .tuple ps, .tuple qs => allAlike ps qs
  | .list ps, .list qs => allAlike ps qs
  | .weak m, .weak n => m == n
  | .tagged s p, .tagged t q => s == t && alike p q
  | _, _ => false

/-- Whether two lists of payloads are written alike. -/
def allAlike : List Payload → List Payload → Bool
  | [], [] => true
  | p :: ps, q :: qs => alike p q && allAlike ps qs
  | _, _ => false

end

/-- Contents that exist only once: the constants, small numbers, the empty text, single characters
up to U+00FF, and the empty tuple. -/
def isSingleton : Payload → Bool
  | .null => true
  | .bool _ => true
  | .int n => -5 ≤ n && n ≤ 256
  | .text s => s.isEmpty || (s.length == 1 && s.toList.all (·.toNat ≤ 0xff))
  | .tuple items => items.isEmpty
  | _ => false

/-- The form by which an object is known: a tag on a content that exists only once says nothing. -/
def canonical (p : Payload) : Payload :=
  if p.content.isSingleton then p.content else p

/-- Whether two payloads are the same object. -/
def same (p q : Payload) : Bool :=
  alike p.canonical q.canonical

/-! ## Views -/

/-- The number a payload stands for; truth values count as zero and one. -/
def number? (p : Payload) : Option Number :=
  match p.content with
  | .bool b => some (.whole (if b then 1 else 0))
  | .int n => some (.whole n)
  | .float x => some (.double x)
  | _ => none

/-- The whole number a payload stands for. -/
def whole? (p : Payload) : Option Int :=
  match p.content with
  | .bool b => some (if b then 1 else 0)
  | .int n => some n
  | _ => none

/-- The length of a text, tuple or list. -/
def length? (p : Payload) : Option Nat :=
  match p.content with
  | .text s => some s.length
  | .tuple items => some items.length
  | .list items => some items.length
  | _ => none

end Payload

end Peaks
