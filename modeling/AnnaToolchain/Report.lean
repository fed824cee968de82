import AnnaToolchain.Diagnostic
import AnnaToolchain.Text.Position

/-! # Reports

    A report tells the user of an error in a source: the message, the place,
    and advice.  A diagnostic gives the place as a line and bytes of that
    line; a report needs it as a range of characters of the whole source. -/

namespace AnnaToolchain

namespace Diagnostic

/-- `count` and the number of characters that the first `bytes` bytes of a line hold; zero if they
    do not end at a character's end within the line. -/
def addChars (count : Nat) : (line : List Char) → (bytes : Nat) → Nat
  | _, 0 => count
  | [], _ + 1 => 0
  | c :: cs, bytes + 1 =>
    if c.utf8Size ≤ bytes + 1 then addChars (count + 1) cs (bytes + 1 - c.utf8Size) else 0

/-- A line without the characters that end it. -/
def content (line : List Char) : List Char :=
  (line.reverse.dropWhile fun c => c = '\r' ∨ c = '\n').reverse

/-- The characters of a line that a diagnostic is about, counted from its first character. -/
def rangeInLine (d : Diagnostic) (line : List Char) : Span :=
  match d.span with
  | some span => ⟨addChars 0 (content line) span.start, addChars 0 (content line) span.stop⟩
  | none => ⟨0, (content line).length⟩

/-- The characters of a source that a diagnostic is about.  There are none if it names no line of
    the source. -/
def range? (d : Diagnostic) (source : List Char) : Option Span :=
  match d.line with
  | none | some 0 => none
  | some (before + 1) =>
    let lines := Text.linesEndedBy (· == '\n') source
    let start := (lines.take before).foldl (fun n line => n + line.length) 0
    lines[before]?.map fun line =>
      ⟨start + (d.rangeInLine line).start, start + (d.rangeInLine line).stop⟩

end Diagnostic

/-- A place in a named source. -/
structure Location where
  name : String
  /-- Counted from one. -/
  line : Nat
  /-- Counted from one, in characters. -/
  column : Nat
  deriving DecidableEq, Repr

/-- A location as it is printed. -/
def Location.text (l : Location) : String :=
  "[" ++ l.name ++ ":" ++ toString l.line ++ ":" ++ toString l.column ++ "]"

/-- An error as the command line reports it. -/
structure Report where
  message : String
  location : Option Location := none
  help : Option String := none
  deriving DecidableEq, Repr

namespace Report

/-- The line a report starts with. -/
def headline (r : Report) : String :=
  "Error: " ++ r.message

/-- The report of an error in a source.  There is none for a range that ends before it starts. -/
def ofDiagnostic? (name source : String) (d : Diagnostic) : Option Report :=
  match d.range? source.toList with
  | none => some { message := d.message, help := d.help }
  | some range =>
    if range.start ≤ range.stop then
      let position := Text.position source.toList range.start
      some
        { message := d.message
          location := some ⟨name, position.1, position.2⟩
          help := d.help }
    else none

end Report

end AnnaToolchain
