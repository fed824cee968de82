import AnnaToolchain.Isa.Mnemonic
import AnnaToolchain.Word

/-! # Statements

    A program is a list of statements.  Each keeps the labels on it and the
    comments and blank lines around it, so that a program can be changed and
    printed again without losing its layout.

    Where a program ends in labels that precede no statement, a *loose*
    statement without mnemonic holds them. -/

namespace AnnaToolchain

/-- A line of source text without a statement. -/
inductive Trivia where
  /-- A line of white space. -/
  | blank
  /-- A line with only a comment. -/
  | comment (contents : String)
  deriving DecidableEq, Repr

/-- A comment as it is written, behind `#`. -/
def commentText (contents : String) : String :=
  if contents = "" then "#" else "# " ++ contents

/-- A line of trivia as it is written. -/
def Trivia.text : Trivia → String
  | .blank => ""
  | .comment contents => commentText contents

/-- A statement of a program. -/
structure Statement where
  /-- The labels that mark the statement's address. -/
  labels : List String := []
  /-- The mnemonic; a loose statement has none. -/
  op : Option Mnemonic := none
  /-- The source text of each operand. -/
  operands : List String := []
  /-- The comment on the statement's own line. -/
  comment : Option String := none
  /-- The trivia before the statement. -/
  leading : List Trivia := []
  /-- The trivia after the statement. -/
  trailing : List Trivia := []
  /-- The source line, counted from one; zero if the statement came from no source. -/
  line : Nat := 0
  /-- The address the statement was placed at, if it has been assembled. -/
  address : Option Word := none
  /-- The words the statement became, if it has been assembled. -/
  words : List Word := []
  deriving DecidableEq, Repr

/-- A list of statements. -/
abbrev Program : Type := List Statement

namespace Statement

/-- Whether there is a mnemonic. -/
def isReal (s : Statement) : Bool :=
  s.op.isSome

/-- A loose statement that holds labels, with trivia before it. -/
def loose (labels : List String) (leading : List Trivia) (line : Nat) : Statement :=
  { labels := labels, leading := leading, line := line }

/-- The mnemonic and its operands, as they are written. -/
def codeText (s : Statement) : String :=
  match s.op with
  | none => ""
  | some op =>
    match s.operands with
    | [] => op.name
    | operands => op.name ++ " " ++ String.intercalate ", " operands

/-- The statement's own line, without labels and trivia. -/
def text (s : Statement) : String :=
  match s.comment with
  | none => s.codeText
  | some c =>
    if s.codeText = "" then commentText c else s.codeText ++ " " ++ commentText c

/-- All the trivia of a statement in order; the comment on its line counts as a comment line. -/
def allTrivia (s : Statement) : List Trivia :=
  s.leading ++ s.comment.toList.map .comment ++ s.trailing

/-- The line of a statement itself: indented code, or the comment of a loose statement. -/
def ownLines (s : Statement) : List String :=
  match s.op, s.comment with
  | some _, _ => ["    " ++ s.text]
  | none, some c => [commentText c]
  | none, none => []

/-- The lines a statement is printed as: trivia, each label on a line, the statement, trivia. -/
def sourceLines (s : Statement) : List String :=
  s.leading.map Trivia.text ++ s.labels.map (· ++ ":") ++ s.ownLines
    ++ s.trailing.map Trivia.text

/-- The statement `s'` says what `s` does.  What surrounds it, and where it was placed, may
    differ. -/
structure SameCode (s s' : Statement) : Prop where
  labels : s'.labels = s.labels
  op : s'.op = s.op
  operands : s'.operands = s.operands
  comment : s'.comment = s.comment

theorem SameCode.refl (s : Statement) : SameCode s s :=
  ⟨rfl, rfl, rfl, rfl⟩

end Statement

namespace Program

/-- The lines a program is printed as. -/
def sourceLines (p : Program) : List String :=
  p.flatMap Statement.sourceLines

/-- A program in its canonical layout. -/
def render (p : Program) : String :=
  String.join (p.sourceLines.map (· ++ "\n"))

/-- The number of statements with a mnemonic. -/
def realCount (p : Program) : Nat :=
  p.countP Statement.isReal

end Program

end AnnaToolchain
