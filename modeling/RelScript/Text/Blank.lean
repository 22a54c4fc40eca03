/-!
White space, trimming and lines. White space is the Unicode property of that name.
-/

namespace RelScript.Text

/-- The Unicode white space characters. -/
def isBlank (c : Char) : Bool :=
  let n := c.toNat
  (9 ≤ n && n ≤ 13) || n = 0x20 || n = 0x85 || n = 0xa0 || n = 0x1680 ||
    (0x2000 ≤ n && n ≤ 0x200a) || n = 0x2028 || n = 0x2029 || n = 0x202f || n = 0x205f || n = 0x3000

/-- The text without white space at either end. -/
def trim (text : List Char) : List Char :=
  ((text.dropWhile isBlank).reverse.dropWhile isBlank).reverse

/-- The pieces between occurrences of a separator; a text without one is one piece. -/
def pieces (separator : Char) : List Char → List (List Char)
  | [] => [[]]
  | c :: rest =>
    if c = separator then [] :: pieces separator rest
    else match pieces separator rest with
      | [] => [[c]]
      | piece :: others => (c :: piece) :: others

/-- A line without the carriage return that may end it. -/
def dropReturn (line : List Char) : List Char :=
  if line.getLast? = some '\r' then line.dropLast else line

/--
The lines of a text. A line ends at a line feed, which with one carriage return before it is
dropped; the text after the last line feed is a line only if it is not empty, and keeps its carriage
return.
-/
def lines (text : List Char) : List (List Char) :=
  let all := pieces '\n' text
  all.dropLast.map dropReturn ++ (all.getLast?.toList.filter (· ≠ []))

end RelScript.Text
