import Peaks.Payload.Basic
import Peaks.Decimal.Shortest
import Peaks.Text.Classes
import Peaks.Text.Quoted

/-!
# The text of a payload

- `Payload.display` : the text with all its digits; tags are not shown
- `Payload.text?`   : the text that messages and logs show, if it can be formed
- `tupleText`, `listText` : items between brackets, a tuple of one with a comma after it
-/

namespace Peaks

def listText (items : List String) : String :=
  "[" ++ String.intercalate ", " items ++ "]"

def tupleText : List String → String
  | [item] => "(" ++ item ++ ",)"
  | items => "(" ++ String.intercalate ", " items ++ ")"

namespace Payload

mutual

def display : Payload → String
  | .null => "None"
  | .bool b => if b then "True" else "False"
  | .int n => toString n
  | .float x => Decimal.Shortest.text x
  | .text s => Text.quoted s
  | .tuple items => tupleText (displayAll items)
  | .list items => listText (displayAll items)
  | .weak n => "Weak(" ++ toString n ++ ")"
  | .tagged _ p => display p

def displayAll : List Payload → List String
  | [] => []
  | p :: ps => display p :: displayAll ps

end

/-! ## Texts that cannot be formed -/

mutual

/-- Whether no whole number in a payload has too many digits to be written. -/
def isWritable : Payload → Bool
  | .int n | .weak n => n.natAbs < 10 ^ Text.digitLimit
  | .tuple items | .list items => allWritable items
  | .tagged _ p => isWritable p
  | .null | .bool _ | .float _ | .text _ => true

def allWritable : List Payload → Bool
  | [] => true
  | p :: ps => isWritable p && allWritable ps

end

/-- The text of a payload, unless a number in it has too many digits. -/
def text? (p : Payload) : Option String :=
  if p.isWritable then some p.display else none

end Payload

/-- The text of an argument and its value. -/
def pairText (argument value : Payload) : String :=
  tupleText [argument.display, value.display]

end Peaks
