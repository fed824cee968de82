import AnnaToolchain.Command.Arguments
import AnnaToolchain.Operand

/-! # Commands

    The commands of the command line, and how they are read.

    ```text
    assemble FILE [-o FILE] [--optimize] [--binary]
    run FILE [--input VALUE...] [--max-cycles N] [--break ADDRESS] [--optimize]
    optimize FILE [--annotate] [-o FILE]
    ```

    `--input` and `--break` may stand several times.  `-v` may stand
    anywhere, and the outcome does not depend on it. -/

namespace AnnaToolchain

/-- What the user wants done with an input file. -/
inductive Command where
  /-- Assemble a program and write its image. -/
  | assemble (file : String) (output : Option String) (optimize binary : Bool)
  /-- Run a program, or an image that was written as a listing. -/
  | run (file : String) (values : List String) (maxCycles : Nat) (breaks : List Word)
      (optimize : Bool)
  /-- Optimize a program and print it. -/
  | optimize (file : String) (annotate : Bool) (output : Option String)
  deriving DecidableEq, Repr

namespace Command

/-- The input file of a command. -/
def file : Command → String
  | .assemble file _ _ _ => file
  | .run file _ _ _ _ => file
  | .optimize file _ _ => file

/-! ## Values of switches -/

/-- The address of a value of `--break`: a number from `0` to `65535`. -/
def address (text : String) : Except UsageError Word :=
  match (do (← Operand.parse text).asInt) with
  | .ok n =>
    if 0 ≤ n ∧ n < maxMemory then .ok (Word.ofInt n) else .error (.badValue .breakAt text)
  | .error _ => .error (.badValue .breakAt text)

/-- The cycles to execute if the user does not say. -/
def defaultCycles : Nat :=
  1000000

/-- The number of a value of `--max-cycles`: decimal digits, with a plus sign or without one, below
    `2 ^ 64`. -/
def cycles (text : String) : Except UsageError Nat :=
  let digits := match text.toList with
    | '+' :: digits => digits
    | digits => digits
  match Text.valueOf? 10 digits with
  | some n =>
    if digits ≠ [] ∧ n < UInt64.size then .ok n else .error (.badValue .maxCycles text)
  | none => .error (.badValue .maxCycles text)

/-- The path of a value, which may not be empty. -/
def path (text : String) (missing : UsageError) : Except UsageError String :=
  if text = "" then .error missing else .ok text

/-! ## Reading -/

/-- The input file: the one plain argument. -/
def inputFile (as : Arguments) : Except UsageError String :=
  match as.plain with
  | [] => .error .missingFile
  | [file] => path file .missingFile
  | _ :: extra :: _ => .error (.unexpectedArgument extra)

/-- The file to write. -/
def outputFile (as : Arguments) : Except UsageError (Option String) := do
  (← as.value? .output).mapM fun file => path file (.missingValue .output)

/-- Reads the arguments of `assemble`. -/
def readAssemble (arguments : List String) : Except UsageError Command := do
  let as ← Arguments.read [.verbose, .output, .optimize, .binary] arguments
  return .assemble (← inputFile as) (← outputFile as) (← as.has .optimize) (← as.has .binary)

/-- Reads the arguments of `run`. -/
def readRun (arguments : List String) : Except UsageError Command := do
  let as ← Arguments.read [.verbose, .input, .maxCycles, .breakAt, .optimize] arguments
  let maxCycles ← (← as.value? .maxCycles).mapM cycles
  let breaks ← (as.values .breakAt).mapM address
  return .run (← inputFile as) (as.values .input) (maxCycles.getD defaultCycles) breaks
    (← as.has .optimize)

/-- Reads the arguments of `optimize`. -/
def readOptimize (arguments : List String) : Except UsageError Command := do
  let as ← Arguments.read [.verbose, .annotate, .output] arguments
  return .optimize (← inputFile as) (← as.has .annotate) (← outputFile as)

/-- Whether an argument says only that the user wants to know more. -/
def isVerbose (argument : String) : Bool :=
  argument == "--verbose" ||
    (match argument.toList with
    | '-' :: c :: rest => (c :: rest).all (some · == Switch.verbose.letter?)
    | _ => false)

/-- Reads a command line. -/
def parse (arguments : List String) : Except UsageError Command :=
  match arguments.dropWhile isVerbose with
  | [] => .error .missingCommand
  | "assemble" :: rest => readAssemble rest
  | "run" :: rest => readRun rest
  | "optimize" :: rest => readOptimize rest
  | name :: _ => .error (.unknownCommand name)

end Command

end AnnaToolchain
