import AnnaToolchain.Program.Line

/-! # Reading a program

    Labels and trivia before a statement belong to that statement.  Blank
    lines right after a statement belong to that statement as well, until a
    comment or a label follows.  What is left at the end goes to the last
    statement, unless there are labels: these become a loose statement. -/

namespace AnnaToolchain

/-- A program as far as it has been read. -/
structure Draft where
  /-- The statements read, last first. -/
  statements : List Statement := []
  /-- The labels waiting for a statement, last first. -/
  labels : List String := []
  /-- The trivia waiting for a statement, last first. -/
  trivia : List Trivia := []
  /-- Whether no comment or label has been read since the last statement. -/
  afterStatement : Bool := false

namespace Draft

/-- Adds line number `number`. -/
def add (d : Draft) (number : Nat) : SourceLine → Draft
  | .blank =>
    match d.statements, d.afterStatement with
    | last :: earlier, true =>
      -- all the trailing trivia so far is blank, so either end will do
      { d with statements := { last with trailing := .blank :: last.trailing } :: earlier }
    | _, _ => { d with trivia := .blank :: d.trivia }
  | .comment contents =>
    { d with trivia := .comment contents :: d.trivia, afterStatement := false }
  | .labels names comment =>
    { d with
      labels := names.reverse ++ d.labels
      trivia := (comment.toList.map .comment) ++ d.trivia
      afterStatement := false }
  | .statement s =>
    { statements :=
        { s with
            labels := d.labels.reverse ++ s.labels
            leading := d.trivia.reverse
            line := number } :: d.statements
      labels := []
      trivia := []
      afterStatement := true }

/-- The program, once line number `number` was the last one. -/
def finish (d : Draft) (number : Nat) : Program :=
  match d.statements, d.labels with
  | last :: earlier, [] =>
    ({ last with trailing := last.trailing ++ d.trivia.reverse } :: earlier).reverse
  | statements, labels =>
    if labels = [] ∧ d.trivia = [] then statements.reverse
    else (Statement.loose labels.reverse d.trivia.reverse number :: statements).reverse

end Draft

namespace Program

/-- Reads one more line into a draft. -/
def addLine (d : Draft) (line : String × Nat) : Except ParseError Draft :=
  match SourceLine.read line.1 with
  | .ok content => .ok (d.add line.2 content)
  | .error fault => .error { fault with line := line.2, text := line.1 }

theorem addLine_eq_ok {d d' : Draft} {line : String × Nat} (h : addLine d line = .ok d') :
    ∃ content, SourceLine.read line.1 = .ok content ∧ d' = d.add line.2 content := by
  unfold addLine at h
  split at h
  · next content hread => exact ⟨content, hread, (Except.ok.inj h).symm⟩
  · cases h

/-- The program of a list of lines, or the error of the first faulty one. -/
def ofLines (lines : List String) : Except ParseError Program := do
  let d ← (lines.zipIdx 1).foldlM addLine {}
  return d.finish lines.length

/-- The program of a source text. -/
def parse (source : String) : Except ParseError Program :=
  ofLines (Text.lines source)

end Program

end AnnaToolchain
