import AnnaToolchain.Report

/-! # Outcomes

    What a command does: it prints, tells the user things, writes at most
    one file, and ends with a status.  The file is written before anything
    is printed, and if that fails the failure is reported. -/

namespace AnnaToolchain

/-! ## Files -/

/-- Why a file cannot be read or written. -/
inductive FileError where
  /-- The operating system says so, for a reason that has a number. -/
  | system (reason : String) (number : Nat)
  /-- The contents are not text in UTF-8. -/
  | notText
  deriving DecidableEq, Repr

namespace FileError

/-- There is no such file or directory. -/
def notFound : FileError :=
  .system "No such file or directory" 2

/-- The file is a directory. -/
def isDirectory : FileError :=
  .system "Is a directory" 21

/-- The brief message. -/
def message : FileError → String
  | .system reason number => reason ++ " (os error " ++ toString number ++ ")"
  | .notText => "stream did not contain valid UTF-8"

/-- The report of a failure to read or write the file at `path`. -/
def report (e : FileError) (path : String) : Report :=
  { message := path ++ ": " ++ e.message }

end FileError

/-! ## Outcomes -/

/-- How a command ends. -/
inductive ExitStatus where
  | success
  | failure
  /-- The command line was refused. -/
  | usage
  /-- An error could not be reported. -/
  | aborted
  deriving DecidableEq, Repr

/-- The exit code of a status. -/
def ExitStatus.code : ExitStatus → UInt8
  | .success => 0
  | .failure => 1
  | .usage => 2
  | .aborted => 101

/-- Something the user is told beside the output. -/
inductive Message where
  | line (text : String)
  | report (r : Report)
  deriving DecidableEq, Repr

/-- A file to be written. -/
structure OutputFile where
  path : String
  bytes : List UInt8
  deriving DecidableEq, Repr

/-- What a command does. -/
structure Outcome where
  /-- The standard output. -/
  printed : String := ""
  messages : List Message := []
  file : Option OutputFile := none
  status : ExitStatus := .success
  deriving DecidableEq, Repr

namespace Outcome

/-- A command that fails with a report and does nothing else. -/
def failed (r : Report) : Outcome :=
  { messages := [.report r], status := .failure }

/-- A command that fails for an error in a source. -/
def failedIn (name source : String) (d : Diagnostic) : Outcome :=
  match Report.ofDiagnostic? name source d with
  | some report => failed report
  | none => { status := .aborted }

/-- A command that writes a file and does nothing else. -/
def writing (path : String) (bytes : List UInt8) : Outcome :=
  { file := some ⟨path, bytes⟩ }

/-- The outcome given how the writing of its file went. -/
def afterWriting (o : Outcome) (written : OutputFile → Except FileError Unit) : Outcome :=
  match o.file with
  | none => o
  | some file =>
    match written file with
    | .ok () => o
    | .error e => failed (e.report file.path)

end Outcome

end AnnaToolchain
