import AnnaToolchain.Text.Blank

/-! # Lines

    A line ends at a line feed, and a carriage return just before that line
    feed belongs to the end too.  A carriage return elsewhere is part of the
    line.  After the last line feed there is one more line only if something
    follows it. -/

namespace AnnaToolchain.Text

/-- Characters without one carriage return at the end. -/
def dropReturn (cs : List Char) : List Char :=
  if cs.getLast? = some '\r' then cs.dropLast else cs

/-- The lines of a text. -/
def lineChars (cs : List Char) : List (List Char) :=
  let pieces := piecesAt (· == '\n') cs
  let all := pieces.1 :: pieces.2
  let last := all.getLast?.getD []
  all.dropLast.map dropReturn ++ (if last = [] then [] else [last])

/-- The lines of a text. -/
def lines (s : String) : List String :=
  (lineChars s.toList).map String.ofList

/-- The rest of the line that a text starts in. -/
def restOfLine (cs : List Char) : List Char :=
  let line := cs.takeWhile (· ≠ '\n')
  if line.length < cs.length then dropReturn line else line

end AnnaToolchain.Text
