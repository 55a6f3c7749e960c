/-!
# Lines

A line ends with a line feed, a carriage return or both in this order.
-/

namespace SentenceGen.Text

/-- Ends every line with a line feed. -/
def plainBreaks : List Char → List Char
  | [] => []
  | '\r' :: '\n' :: rest => '\n' :: plainBreaks rest
  | '\r' :: rest => '\n' :: plainBreaks rest
  | c :: rest => c :: plainBreaks rest

/-- The lines of a text whose lines end with line feeds, without these. -/
def lines : List Char → List (List Char)
  | [] => [[]]
  | '\n' :: rest => [] :: lines rest
  | c :: rest =>
    match lines rest with
    | [] => [[c]]
    | line :: more => (c :: line) :: more

def unlines (s : List (List Char)) : List Char := ['\n'].intercalate s

end SentenceGen.Text
