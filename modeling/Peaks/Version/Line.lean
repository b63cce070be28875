import Peaks.Text.Quoted
import Peaks.Version.Number

/-!
# Version lines

A text declares its version on a line that starts with a key, an equals sign and a quoted text, with
blanks (line breaks included) around the equals sign. The quoted text ends at the first quote that
ends its line.

- `Version.matchLine?` : the rest of a text after a version line that starts it
- `Version.find?`      : what comes before and after the first version line of a text
- `Version.replace?`   : the text with that line written anew
-/

namespace Peaks
namespace Version

/-- Nothing, or a line break, comes next. -/
def atLineEnd : List Char → Bool
  | [] => true
  | c :: _ => c == '\n'

/-- What follows the first quote that ends its line, if no line break comes before it. -/
def afterClosingQuote? : List Char → Option (List Char)
  | [] => none
  | c :: rest =>
      if c = '\n' then none
      else if c = Text.doubleQuote ∧ atLineEnd rest then some rest
      else afterClosingQuote? rest

/-- What follows a given beginning. -/
def afterText? : List Char → List Char → Option (List Char)
  | [], s => some s
  | _ :: _, [] => none
  | k :: key, c :: s => if k = c then afterText? key s else none

def matchLine? (key : List Char) (s : List Char) : Option (List Char) := do
  let s ← afterText? key s
  let s ← afterChar? '=' (s.dropWhile Text.isBlank)
  let s ← afterChar? Text.doubleQuote (s.dropWhile Text.isBlank)
  afterClosingQuote? s

/-- The text before the first version line and the text after it. Version lines start at the front
of the text, if `lineStart`, and after every line break. -/
def findFrom? (key : List Char) (lineStart : Bool) (s : List Char) :
    Option (List Char × List Char) :=
  match if lineStart then matchLine? key s else none with
  | some after => some ([], after)
  | none =>
      match s with
      | [] => none
      | c :: rest =>
          match findFrom? key (c == '\n') rest with
          | some (before, after) => some (c :: before, after)
          | none => none

def find? (key : List Char) (s : List Char) : Option (List Char × List Char) :=
  findFrom? key true s

/-- A version line as this program writes it. -/
def line (key version : List Char) : List Char :=
  key ++ [' ', '=', ' ', Text.doubleQuote] ++ version ++ [Text.doubleQuote]

/-- The text with its first version line replaced, if it has one. -/
def replace? (key version : List Char) (s : List Char) : Option (List Char) :=
  (find? key s).map fun (before, after) => before ++ line key version ++ after

end Version
end Peaks
