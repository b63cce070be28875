/-!
# Wrapped text

Text is laid out in lines of a given width. Lines end between words, and a word that no line can
hold is cut wherever a line is full.

- `Text.words`   : the words of a text, each with the blanks after it
- `Text.pieces`  : a word cut to a width
- `Text.wrapped` : the lines of a text
-/

namespace Peaks
namespace Text

/-- The words of a text. The blanks after a word belong to it, and so nothing is lost. -/
def words : List Char → List (List Char)
  | [] => []
  | c :: rest =>
      match words rest with
      | [] => [[c]]
      | word :: others =>
          if c = ' ' ∧ word.head? ≠ some ' ' then [c] :: word :: others
          else (c :: word) :: others

/-- Puts a character in front of the first piece. -/
def onFirst (c : Char) : List (List Char) → List (List Char)
  | [] => [[c]]
  | piece :: others => (c :: piece) :: others

/-- Cuts a text into pieces of the given width, the first of which has so much room left. -/
def pieces (width : Nat) : (room : Nat) → List Char → List (List Char)
  | _, [] => [[]]
  | 0, c :: rest => [] :: onFirst c (pieces width (width - 1) rest)
  | room + 1, c :: rest => onFirst c (pieces width room rest)

/-- The length of a word without the blanks after it. -/
def bareLength (word : List Char) : Nat :=
  (word.reverse.dropWhile (· == ' ')).length

/-- Puts words on lines; `line` is the one that is being filled. -/
def fillLines (width : Nat) (line : List Char) : List (List Char) → List (List Char)
  | [] => [line]
  | word :: rest =>
      if line.length + bareLength word ≤ width then fillLines width (line ++ word) rest
      else
        let cut := if bareLength word ≤ width then [word] else pieces width width word
        (if line.isEmpty then [] else [line]) ++ cut.dropLast ++
          fillLines width (cut.getLastD []) rest

/-- The lines of a text. Blanks that stand beyond the width are left out. -/
def wrapped (width : Nat) (s : String) : List String :=
  (fillLines width [] (words s.toList)).map fun line => String.ofList (line.take width)

end Text
end Peaks
