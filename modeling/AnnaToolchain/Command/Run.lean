import AnnaToolchain.Assembly
import AnnaToolchain.Command.Basic
import AnnaToolchain.Command.Outcome
import AnnaToolchain.Command.Path
import AnnaToolchain.Image.Binary
import AnnaToolchain.Image.Listing
import AnnaToolchain.Machine.Run
import AnnaToolchain.Peephole
import AnnaToolchain.Program.Reader

/-! # What commands do

    Each command is a function from the text of its input file to an
    outcome. -/

namespace AnnaToolchain.Command

/-! ## Reading programs -/

/-- The program of a source, optimized if that is wanted. -/
def readProgram (optimize : Bool) (source : String) : Except Diagnostic Program := do
  let program ← (Program.parse source).mapError ParseError.diagnostic
  return if optimize then (Peephole.optimize false program).1 else program

/-- The image of a source. -/
def readSource (optimize : Bool) (source : String) : Except Diagnostic Image := do
  let program ← readProgram optimize source
  (program.assemble maxMemory).2.mapError AssemblyError.diagnostic

/-- The image of a file, which is a listing if its extension is `mem`, and otherwise a source. -/
def readImage (file : String) (optimize : Bool) (contents : String) : Except Diagnostic Image :=
  if Path.extension? file = some "mem" then
    (Image.ofListing contents).mapError ImageError.diagnostic
  else readSource optimize contents

/-! ## Running images -/

/-- Runs an image in a machine with zeroed memory, whose output is kept. -/
def execute (image : Image) (input breaks : List Word) (maxCycles : Nat) : Machine.Session :=
  let m := breaks.foldl Machine.setBreakpoint ((Machine.new {}).load image)
  ((m.reset input).setSink .keep).resume maxCycles

/-- An address, and its label if it has one. -/
def addressText (image : Image) (address : Word) : String :=
  address.text ++
    (match image.symbols.labelAt? address with
    | some label => " (" ++ label ++ ")"
    | none => "")

/-- What the user is told at a breakpoint. -/
def visitText (image : Image) (visit : Machine.Visit) : String :=
  let registers := (visit.registers.toList.zipIdx).map fun (value, i) =>
    "r" ++ toString i ++ "=" ++ value.signedText
  "break at " ++ addressText image visit.pc ++ ": " ++ String.intercalate " " registers

/-- What the user is told at the end of a run, and the status. -/
def endOfRun (image : Image) (maxCycles : Nat) (session : Machine.Session) :
    Message × ExitStatus :=
  match session.result with
  | .ok .halted =>
    (.line ("halted after " ++ toString session.machine.cycles ++ " cycles"), .success)
  | .ok _ =>
    (.line ("stopped: exceeded " ++ toString maxCycles ++ " cycles (pc = "
      ++ session.machine.pc.text ++ ")"), .failure)
  | .error fault =>
    (.report
      { message := fault.diagnostic.message ++ " at " ++ addressText image session.machine.pc
        help := fault.diagnostic.help }, .failure)

/-- The outcome of a run.  A line end follows the output of the program. -/
def sessionOutcome (image : Image) (maxCycles : Nat) (session : Machine.Session) : Outcome :=
  let last := endOfRun image maxCycles session
  { printed := String.join (session.machine.outputs.toList.map Output.printed) ++ "\n"
    messages := session.visits.map (fun visit => .line (visitText image visit)) ++ [last.1]
    status := last.2 }

/-! ## Outcomes -/

/-- The outcome of `assemble`. -/
def assembleOutcome (file : String) (output : Option String) (optimize binary : Bool)
    (source : String) : Outcome :=
  match readSource optimize source with
  | .error d => .failedIn file source d
  | .ok image =>
    let extension := if binary then "bin" else "mem"
    .writing (output.getD (Path.withExtension file extension))
      (if binary then image.encode else image.listing.toUTF8.toList)

/-- The outcome of `run`.  The input values are read after the program. -/
def runOutcome (file : String) (values : List String) (maxCycles : Nat) (breaks : List Word)
    (optimize : Bool) (contents : String) : Outcome :=
  match readImage file optimize contents with
  | .error d => .failedIn file contents d
  | .ok image =>
    match values.mapM Operand.parseWord with
    | .error e => .failedIn "--input" (String.intercalate " " values) e.diagnostic
    | .ok input => sessionOutcome image maxCycles (execute image input breaks maxCycles)

/-- The outcome of `optimize`. -/
def optimizeOutcome (file : String) (annotate : Bool) (output : Option String) (source : String) :
    Outcome :=
  match Program.parse source with
  | .error e => .failedIn file source e.diagnostic
  | .ok program =>
    let text := (Peephole.optimize annotate program).1.render
    match output with
    | none => { printed := text }
    | some path => .writing path text.toUTF8.toList

/-- The outcome of a command, given the text of its input file. -/
def outcome (command : Command) (contents : Except FileError String) : Outcome :=
  match contents with
  | .error e => .failed (e.report command.file)
  | .ok contents =>
    match command with
    | .assemble file output optimized binary =>
      assembleOutcome file output optimized binary contents
    | .run file values maxCycles breaks optimized =>
      runOutcome file values maxCycles breaks optimized contents
    | .optimize file annotate output => optimizeOutcome file annotate output contents

end AnnaToolchain.Command
