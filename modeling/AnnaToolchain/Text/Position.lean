/-! # Positions

    Where a character of a text stands: its line and its column, counted
    from one.  A column counts characters.  A line is shown up to and with
    the character that ends it, so joined together the lines are the text. -/

namespace AnnaToolchain.Text

/-- The lines of a text, each with the character that ends it. -/
def linesEndedBy (ends : Char → Bool) (cs : List Char) : List (List Char) :=
  cs.foldr (fun c lines =>
    if ends c then [c] :: lines
    else match lines with
      | [] => [[c]]
      | line :: rest => (c :: line) :: rest) []

@[simp] theorem linesEndedBy_nil (ends : Char → Bool) : linesEndedBy ends [] = [] := rfl

theorem linesEndedBy_cons (ends : Char → Bool) (c : Char) (cs : List Char) :
    linesEndedBy ends (c :: cs) =
      if ends c then [c] :: linesEndedBy ends cs
      else match linesEndedBy ends cs with
        | [] => [[c]]
        | line :: rest => (c :: line) :: rest := rfl

@[simp] theorem flatten_linesEndedBy (ends : Char → Bool) (cs : List Char) :
    (linesEndedBy ends cs).flatten = cs := by
  induction cs with
  | nil => rfl
  | cons c cs ih =>
    rw [linesEndedBy_cons]
    split
    · simp [ih]
    · split
      · next h => rw [h] at ih; simpa using ih
      · next h => rw [h] at ih; simpa using ih

/-- The characters that end a line of a report. -/
def isLineEnd (c : Char) : Bool :=
  ['\n', '\x0B', '\x0C', '\r', '\u0085', '\u2028', '\u2029'].contains c

/-- Puts a line in front of others; a carriage return and the line feed after it are one end. -/
def joinReturn (line : List Char) (lines : List (List Char)) : List (List Char) :=
  match lines with
  | ['\n'] :: rest => if line.getLast? = some '\r' then (line ++ ['\n']) :: rest else line :: lines
  | _ => line :: lines

/-- The lines by which a report counts. -/
def reportLines (cs : List Char) : List (List Char) :=
  (linesEndedBy isLineEnd cs).foldr joinReturn []

/-- The line and the column of the character `offset` places on, in lines of which the first has the
    given number.  What lies past the last line counts as part of it. -/
def positionIn (number offset : Nat) : List (List Char) → Nat × Nat
  | line :: next :: rest =>
    if offset < line.length then (number, offset + 1)
    else positionIn (number + 1) (offset - line.length) (next :: rest)
  | _ => (number, offset + 1)

/-- The line and the column of the character at an offset, as a report counts them. -/
def position (cs : List Char) (offset : Nat) : Nat × Nat :=
  positionIn 1 offset (reportLines cs)

end AnnaToolchain.Text
