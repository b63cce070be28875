import Peaks.Text.Classes

/-!
# Command-line arguments

Arguments are first told apart, all of them: options by their name or any beginning of it that is
not ambiguous, everything after a `--` as plain words. Then they are taken in turn. Asking for help
ends this at once, and so does an option without a proper value; what is left over is noticed at the
end.

- `Arguments.wholeNumber?` : a whole number of at most `Text.digitLimit` digits, with blanks around
  it, a sign, and `_` between digits
- `CommandLine.parse`      : what the arguments ask for
-/

namespace Peaks

/-! ## Whole numbers -/

namespace Arguments

/-- Digits of any script, with single underscores between them. -/
def digitsValue? (value : Nat) : List Char → Option Nat
  | [] => some value
  | '_' :: c :: rest => do digitsValue? (value * 10 + (← Text.decimalValue? c)) rest
  | c :: rest => do digitsValue? (value * 10 + (← Text.decimalValue? c)) rest

def naturalNumber? : List Char → Option Nat
  | [] => none
  | c :: rest => do digitsValue? (← Text.decimalValue? c) rest

/-- Blanks around a number. The information separators are not among them. -/
def isPadding (c : Char) : Bool :=
  Text.isBlank c && !Text.isSeparator c

def trimPadding (s : List Char) : List Char :=
  ((s.dropWhile isPadding).reverse.dropWhile isPadding).reverse

def wholeNumber? (s : String) : Option Int :=
  let digits := trimPadding s.toList
  if Text.digitLimit < digits.countP Text.isDecimalDigit then none
  else
    match digits with
    | '-' :: rest => (naturalNumber? rest).map fun n => -(n : Int)
    | '+' :: rest => (naturalNumber? rest).map fun n => (n : Int)
    | rest => (naturalNumber? rest).map fun n => (n : Int)

/-- The text without one newline at its very end. -/
def dropFinalNewline (s : List Char) : List Char :=
  if s.getLast? = some '\n' then s.dropLast else s

/-- A minus sign, then digits, or digits or none with a point and digits after it. -/
def looksNegative (s : List Char) : Bool :=
  match dropFinalNewline s with
  | '-' :: rest =>
      match rest.dropWhile Text.isDecimalDigit with
      | [] => !rest.isEmpty
      | '.' :: places => !places.isEmpty && places.all Text.isDecimalDigit
      | _ => false
  | _ => false

end Arguments

/-! ## What a program takes -/

/-- The options of a program that take a whole number, and how many plain words it takes. Every
program also knows `-h` and `--help`. -/
structure CommandLine where
  numbers : List String
  words : Nat

namespace CommandLine

/-- What the arguments ask for. -/
inductive Request
  | help
  /-- The arguments are of no use. -/
  | misuse
  /-- The options that were given, some of them perhaps without a number, and the plain words. -/
  | run (numbers : List (String × Option Int)) (words : List String)
  deriving DecidableEq, Repr

/-- What one argument is. -/
inductive Token
  | word (s : String)
  /-- The first `--`. -/
  | mark
  | help
  /-- Help with something attached that it does not take. -/
  | badHelp
  | number (name : String) (attached : Option String)
  | unknown
  deriving DecidableEq, Repr

/-- Help was asked for by its long name. -/
def helpToken (attached : Option String) : Token :=
  if attached.isSome then .badHelp else .help

def optionToken (name : String) (attached : Option String) : Token :=
  if name = "--help" then helpToken attached else .number name attached

/-- The part before the first `=` and the part after it. -/
def splitEquals (s : String) : String × Option String :=
  match s.toList.span (· != '=') with
  | (name, _ :: value) => (String.ofList name, some (String.ofList value))
  | (name, []) => (String.ofList name, none)

/-- A word that starts with a dash but is no option. -/
def dashedWord (s : String) : Token :=
  if Arguments.looksNegative s.toList || s.toList.contains ' ' then .word s else .unknown

/-- Long options may be shortened as long as only one is meant; `none` if several are. -/
def longToken? (c : CommandLine) (s : String) : Option Token :=
  let names := "--help" :: c.numbers
  let (name, attached) := splitEquals s
  if s ∈ names then some (optionToken s none)
  else if name ∈ names then some (optionToken name attached)
  else
    match names.filter (name.toList.isPrefixOf ·.toList) with
    | [] => some (dashedWord s)
    | [full] => some (optionToken full attached)
    | _ => none

/-- Help was asked for by its short name. What is attached to it is read as more short names, and
there is no other than `h`. -/
def shortHelpToken : List Char → Token
  | [] => .help
  | '=' :: names => if !names.isEmpty && names.all (· == 'h') then .help else .badHelp
  | names => if names.all (· == 'h') then .help else .badHelp

/-- What an argument is, before any `--`; `none` if it is ambiguous. -/
def token? (c : CommandLine) (s : String) : Option Token :=
  match s.toList with
  | '-' :: '-' :: _ => c.longToken? s
  | '-' :: 'h' :: attached => some (shortHelpToken attached)
  | ['-'] => some (.word s)
  | '-' :: _ => some (dashedWord s)
  | _ => some (.word s)

/-- Tells all arguments apart. -/
def tokens? (c : CommandLine) : List String → Option (List Token)
  | [] => some []
  | s :: rest =>
      if s = "--" then some (.mark :: rest.map .word)
      else do
        let token ← c.token? s
        return token :: (← c.tokens? rest)

/-- The options and words taken so far, the latest first, and whether something was left over. -/
structure Taken where
  numbers : List (String × Option Int) := []
  words : List String := []
  marked : Bool := false
  leftOver : Bool := false

/-- All arguments are taken; now they must be neither too many nor too few. -/
def finish (c : CommandLine) (t : Taken) : Request :=
  if t.leftOver || t.words.length != c.words || (t.marked && c.words == 0) then .misuse
  else .run t.numbers t.words.reverse

/-- The value attached to an option. A mark there ends the options before any value is read, which
leaves the option without a number. -/
def attachedNumber? (s : String) : Option (Option Int) :=
  if s = "--" then some none else (Arguments.wholeNumber? s).map some

/-- Takes arguments in turn. -/
def take (c : CommandLine) (t : Taken) : List Token → Request
  | [] => c.finish t
  | .help :: _ => .help
  | .badHelp :: _ => .misuse
  | .unknown :: rest => c.take { t with leftOver := true } rest
  | .mark :: rest => c.take { t with marked := true } rest
  | .word s :: rest => c.take { t with words := s :: t.words } rest
  | .number name (some s) :: rest =>
      match attachedNumber? s with
      | some n => c.take { t with numbers := (name, n) :: t.numbers } rest
      | none => .misuse
  | .number name none :: .word s :: rest =>
      match Arguments.wholeNumber? s with
      | some n => c.take { t with numbers := (name, some n) :: t.numbers } rest
      | none => .misuse
  | .number _ none :: _ => .misuse

/-- What the arguments ask for. Of repeated options the last one stands first. -/
def parse (c : CommandLine) (args : List String) : Request :=
  match c.tokens? args with
  | some tokens => c.take {} tokens
  | none => .misuse

end CommandLine

/-! ## What a program leaves behind -/

/-- Lines as they are printed, each with a newline after it. -/
def printedLines (lines : List String) : String :=
  String.join (lines.map (· ++ "\n"))

/-- How a program ends: its exit code and what it printed. -/
structure Outcome where
  exitCode : Nat
  output : String
  deriving DecidableEq, Repr

end Peaks
