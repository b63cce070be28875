import Peaks.Payload.Show

/-!
# Faults

Everything that can go wrong, as causes. The wording stands in one place.

- `Fault.kind`    : the class of a fault
- `Fault.message` : what it says
- `Fault.text?`   : both together, as logs show them, if that text can be formed
-/

namespace Peaks

inductive Fault
  /-- Two payloads that no `<` compares. -/
  | unordered (left right : Kind)
  /-- A rule was given an operand of a kind it does not take. -/
  | unsupportedOperand (rule : String) (operand : Kind)
  /-- Something other than an ordering was given as one. -/
  | notAnOrdering (kind : String)
  /-- The base of an ordering cannot compare. -/
  | cannotCompare (kind : String)
  /-- The first item of an empty tuple or list was asked for. -/
  | noFirstItem (kind : Kind)
  | indexOutOfRange
  | popFromEmpty
  | popOutOfRange
  /-- A position to read at that fits no machine word. -/
  | indexTooWide
  /-- A position to change a list at that fits no machine word. -/
  | positionTooWide
  /-- The function is not defined at an argument. -/
  | invalidArgument (argument : Payload)
  /-- A cursor met a change of its store. -/
  | modifiedDuringIteration
  | injectedFailure
  | allocationFailure
  /-- A row with fewer than two columns. -/
  | rowTooShort (columns : Nat)
  /-- A row with more than two columns. -/
  | rowTooLong
  /-- A row of a table that is not a pair. -/
  | notAPair (row columns : Nat)
  /-- A source gave up with a text. -/
  | sourceFailed (text : String)
  /-- A key that is not there was asked for. -/
  | missingKey (key : Payload)
  /-- A whole number has too many digits to be written. -/
  | tooManyDigits
  /-- The same, when another fault was to be told. -/
  | unspoken (cause : Fault)
  | leaseReleased
  | notOneDimensional (shape : List Nat)
  | shapesDiffer (arguments values : List Nat)
  | unhashable (kind : String)
  /-- A sequence was to be joined with a number. -/
  | cannotConcatenate (kind : Kind)
  | cannotAdd (kind : Kind)
  | numberTooLarge
  | emptyRange
  /-- A setting that this way of building a function does not take. -/
  | unexpectedSetting (name : String)
  /-- An option without a number was to be counted with. -/
  | noNumber
  /-- An option without a number was to be a seed. -/
  | noSeed
  | unboundName (name : String)
  deriving Repr, Inhabited

namespace Fault

/-- The class of a fault. -/
def kind : Fault → String
  | unordered .. | unsupportedOperand .. | notAnOrdering _ | unhashable _
  | cannotConcatenate _ | cannotAdd _ | unexpectedSetting _ | noNumber | noSeed => "TypeError"
  | cannotCompare _ => "AttributeError"
  | noFirstItem _ | indexOutOfRange | popFromEmpty | popOutOfRange | indexTooWide => "IndexError"
  | invalidArgument _ => "InvalidArgument"
  | modifiedDuringIteration => "ConcurrentModificationError"
  | injectedFailure => "InjectedFailure"
  | allocationFailure => "MemoryError"
  | missingKey _ => "KeyError"
  | rowTooShort _ | rowTooLong | notAPair .. | notOneDimensional _ | shapesDiffer ..
  | emptyRange | tooManyDigits | unspoken _ => "ValueError"
  | sourceFailed _ | leaseReleased => "RuntimeError"
  | numberTooLarge | positionTooWide => "OverflowError"
  | unboundName _ => "BadRequest"

/-- The lengths of an array along its axes. -/
def shapeText (shape : List Nat) : String :=
  tupleText (shape.map toString)

def message : Fault → String
  | unordered l r =>
      "'<' not supported between instances of '" ++ l.name ++ "' and '" ++ r.name ++ "'"
  | unsupportedOperand rule operand => rule ++ ": unsupported " ++ operand.name
  | notAnOrdering k => Text.quoted k ++ " object is not a valid ordering"
  | cannotCompare k => "'" ++ k ++ "' object has no attribute 'compare'"
  | noFirstItem k => k.name ++ " index out of range"
  | indexOutOfRange => "list index out of range"
  | popFromEmpty => "pop from empty list"
  | popOutOfRange => "pop index out of range"
  | indexTooWide => "cannot fit 'int' into an index-sized integer"
  | positionTooWide => "Python int too large to convert to C ssize_t"
  | invalidArgument a => "invalid argument value: " ++ a.display
  | modifiedDuringIteration => "function was modified during iteration"
  | injectedFailure => "injected comparison failure"
  | allocationFailure => "simulated allocation failure"
  | rowTooShort n => "not enough values to unpack (expected 2, got " ++ toString n ++ ")"
  | rowTooLong => "too many values to unpack (expected 2)"
  | notAPair row n =>
      "dictionary update sequence element #" ++ toString row ++ " has length " ++ toString n ++
        "; 2 is required"
  | sourceFailed text => text
  | missingKey key => key.display
  | tooManyDigits | unspoken _ =>
      "Exceeds the limit (" ++ toString Text.digitLimit ++ " digits) for integer string " ++
        "conversion; use sys.set_int_max_str_digits() to increase the limit"
  | leaseReleased => "Lease has already been released"
  | notOneDimensional shape => "expected a 1-D array, got shape " ++ shapeText shape
  | shapesDiffer a v =>
      "arguments and values must be 1-D arrays of equal length, got shapes " ++ shapeText a ++
        " and " ++ shapeText v
  | unhashable k => "unhashable type: '" ++ k ++ "'"
  | cannotConcatenate k =>
      "can only concatenate " ++ k.name ++ " (not \"int\") to " ++ k.name
  | cannotAdd k => "unsupported operand type(s) for +: '" ++ k.name ++ "' and 'int'"
  | numberTooLarge => "int too large to convert to float"
  | emptyRange => "empty range for randrange()"
  | unexpectedSetting name =>
      "FunctionMaxima.from_arrays() got an unexpected keyword argument '" ++ name ++ "'"
  | noNumber => "'list' object cannot be interpreted as an integer"
  | noSeed => "The only supported seed types are: None,\nint, float, str, bytes, and bytearray."
  | unboundName name => "no such name: " ++ name

/-- Class and message, the message quoted; where a fault is about a payload, its class and this. -/
def display : Fault → String
  | invalidArgument a => "InvalidArgument(" ++ a.display ++ ")"
  | missingKey key => "KeyError(" ++ key.display ++ ")"
  | fault => fault.kind ++ "(" ++ Text.quoted fault.message ++ ")"

/-- Whether the text of a fault can be formed. -/
def isWritable : Fault → Bool
  | invalidArgument p | missingKey p => p.isWritable
  | _ => true

/-- The text of a fault, unless a number in it has too many digits. -/
def text? (fault : Fault) : Option String :=
  if fault.isWritable then some fault.display else none

end Fault

end Peaks
