import Peaks.Text.Printable

/-!
# Quoted text

A text between quotes, with everything that cannot stand for itself written as an escape.

- `Text.quoteMark` : single quotes, unless the text holds one and no double quote
- `Text.quoted`    : the written form
-/

namespace Peaks
namespace Text

def singleQuote : Char := Char.ofNat 0x27

def doubleQuote : Char := Char.ofNat 0x22

def backslash : Char := Char.ofNat 0x5c

/-- Double quotes only where they save an escape. -/
def quoteMark (s : List Char) : Char :=
  if singleQuote ∈ s ∧ doubleQuote ∉ s then doubleQuote else singleQuote

/-- Lower-case hexadecimal digits, at least `width` of them. -/
def hexDigits (width n : Nat) : List Char :=
  let digits := Nat.toDigits 16 n
  List.replicate (width - digits.length) '0' ++ digits

/-- The code point in two, four or eight hexadecimal digits, whichever is the least that fits. -/
def numericEscape (c : Char) : List Char :=
  let n := c.toNat
  if n ≤ 0xff then backslash :: 'x' :: hexDigits 2 n
  else if n ≤ 0xffff then backslash :: 'u' :: hexDigits 4 n
  else backslash :: 'U' :: hexDigits 8 n

/-- One character between quotes of the given kind. -/
def escapeChar (mark c : Char) : List Char :=
  if c = mark ∨ c = backslash then [backslash, c]
  else if c = '\n' then [backslash, 'n']
  else if c = '\r' then [backslash, 'r']
  else if c = '\t' then [backslash, 't']
  else if isPrintable c then [c]
  else numericEscape c

def quoted (s : String) : String :=
  let chars := s.toList
  let mark := quoteMark chars
  String.ofList (mark :: chars.flatMap (escapeChar mark) ++ [mark])

end Text
end Peaks
