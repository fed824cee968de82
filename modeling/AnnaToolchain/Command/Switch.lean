/-! # Switches

    The switches a command line may have.  Each has a long name, some have a
    letter as well, and each takes no value, one value, or as many values as
    follow it. -/

namespace AnnaToolchain

/-- A switch of the command line. -/
inductive Switch where
  /-- Say more about the work; any number of times. -/
  | verbose
  /-- The file to write. -/
  | output
  /-- Optimize the program first. -/
  | optimize
  /-- Write the binary form. -/
  | binary
  /-- Values for the program to read. -/
  | input
  /-- The most instructions to execute. -/
  | maxCycles
  /-- An address to stop at. -/
  | breakAt
  /-- Explain each reduction in a comment. -/
  | annotate
  deriving DecidableEq, Repr

/-- How many values a switch takes. -/
inductive Takes where
  | nothing
  | one
  /-- One at least, up to the next switch. -/
  | several
  deriving DecidableEq, Repr

namespace Switch

/-- The long name, which is written behind two dashes. -/
def name : Switch → String
  | .verbose => "verbose"
  | .output => "output"
  | .optimize => "optimize"
  | .binary => "binary"
  | .input => "input"
  | .maxCycles => "max-cycles"
  | .breakAt => "break"
  | .annotate => "annotate"

/-- The letter, which is written behind one dash. -/
def letter? : Switch → Option Char
  | .verbose => some 'v'
  | .output => some 'o'
  | _ => none

/-- How many values a switch takes. -/
def takes : Switch → Takes
  | .verbose | .optimize | .binary | .annotate => .nothing
  | .output | .maxCycles | .breakAt => .one
  | .input => .several

/-- Whether a negative number after the switch is a value of it. -/
def takesNegatives : Switch → Bool
  | .input => true
  | _ => false

end Switch

end AnnaToolchain
