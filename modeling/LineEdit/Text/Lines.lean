/-!
# Lines of a text

A line ends in a line feed, and a carriage return before the line feed belongs to that end. What
stands after the last line feed is a line too, as it is, unless it is empty.
-/
namespace LineEdit.Text

/-- The lines of `read ++ cs`, where `read` has no line feed and is kept newest character first. A
carriage return that no line feed follows stays in its line. -/
def linesFrom (read : List Char) : List Char → List (List Char)
  | [] => if read.isEmpty then [] else [read.reverse]
  | c :: cs =>
    if c = '\n' then
      let line := if read.head? = some '\r' then read.tail else read
      line.reverse :: linesFrom [] cs
    else linesFrom (c :: read) cs

def lines (s : String) : List String := (linesFrom [] s.toList).map String.ofList

def isLineBreak (c : Char) : Bool := c = '\r' || c = '\n'

def isSingleLine (s : String) : Bool := s.toList.all (!isLineBreak ·)

end LineEdit.Text
