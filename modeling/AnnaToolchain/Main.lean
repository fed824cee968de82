import AnnaToolchain.Command.Run

/-! # The command line

    Reads the input file, carries out the outcome of the command, and exits
    with its code. -/

namespace AnnaToolchain.CommandLine

/-- The error of a failed read or write. -/
def fileError : IO.Error → FileError
  | .noFileOrDirectory _ _ _ => .notFound
  | .inappropriateType _ number reason | .permissionDenied _ number reason
  | .resourceExhausted _ number reason => .system reason number.toNat
  | .otherError number reason | .hardwareFault number reason
  | .resourceBusy number reason => .system reason number.toNat
  | _ => .notText

/-- An action's result, or why it failed. -/
def attempt {α : Type} (action : IO α) : IO (Except FileError α) := do
  match ← action.toBaseIO with
  | .ok value => return .ok value
  | .error e => return .error (fileError e)

/-- The lines that tell the user of a message. -/
def messageLines : Message → List String
  | .line text => [text]
  | .report r =>
    r.headline :: (r.location.toList.map Location.text ++ r.help.toList.map ("Help: " ++ ·))

/-- Writes the file of an outcome, prints, and gives the exit code. -/
def perform (o : Outcome) : IO UInt32 := do
  let written ← match o.file with
    | none => pure (.ok ())
    | some file => attempt (IO.FS.writeBinFile file.path ⟨file.bytes.toArray⟩)
  let o := o.afterWriting fun _ => written
  IO.print o.printed
  for message in o.messages do
    for line in messageLines message do
      IO.eprintln line
  return o.status.code.toUInt32

end AnnaToolchain.CommandLine

open AnnaToolchain CommandLine in
/-- Runs the command of a command line. -/
def main (arguments : List String) : IO UInt32 := do
  match Command.parse arguments with
  | .error e =>
    IO.eprintln ("error: " ++ e.message)
    return ExitStatus.usage.code.toUInt32
  | .ok command =>
    let contents ← attempt (IO.FS.readFile command.file)
    perform (command.outcome contents)
