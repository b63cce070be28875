import Peaks.Text.Classes

/-!
# Version numbers

A version number is three runs of decimal digits with single dots between them.

- `Version.isNumber` : exactly that
- `Version.isValid`  : the same, with or without one newline at the very end
-/

namespace Peaks
namespace Version

/-- What follows a run of at least one digit. -/
def afterDigits? (s : List Char) : Option (List Char) :=
  match s with
  | [] => none
  | c :: rest => if Text.isDecimalDigit c then some (rest.dropWhile Text.isDecimalDigit) else none

/-- What follows a given character. -/
def afterChar? (c : Char) : List Char → Option (List Char)
  | [] => none
  | d :: rest => if d = c then some rest else none

def isNumber (s : List Char) : Bool :=
  let rest := do
    let s ← afterDigits? s
    let s ← afterChar? '.' s
    let s ← afterDigits? s
    let s ← afterChar? '.' s
    afterDigits? s
  rest == some []

/-- A version as it may be given: one newline may come after it. -/
def isValid (version : String) : Bool :=
  let s := version.toList
  isNumber s || (s.getLast? == some '\n' && isNumber s.dropLast)

end Version
end Peaks
