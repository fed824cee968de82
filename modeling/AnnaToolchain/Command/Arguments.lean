import AnnaToolchain.Command.Switch

/-! # Arguments

    The arguments of a command are switches with their values, and plain
    arguments.

    - `--name` is a switch; its value follows, or is attached as
      `--name=value`.
    - `-abc` are the switches `a`, `b` and `c`.  Where one of them takes a
      value, the rest of the argument is that value, without an equals sign
      in front of it.
    - A value that is attached is the only one.
    - After `--` every argument is plain. -/

namespace AnnaToolchain

/-- Why a command line is refused. -/
inductive UsageError where
  | missingCommand
  | unknownCommand (name : String)
  | unknownSwitch (text : String)
  | missingValue (switch : Switch)
  /-- A switch that takes no value has one attached. -/
  | unexpectedValue (switch : Switch)
  /-- A switch stands twice that may stand once. -/
  | repeated (switch : Switch)
  | badValue (switch : Switch) (value : String)
  | missingFile
  | unexpectedArgument (value : String)
  deriving DecidableEq, Repr

/-- The brief message. -/
def UsageError.message : UsageError → String
  | .missingCommand => "a command is needed: assemble, run or optimize"
  | .unknownCommand name => "unknown command `" ++ name ++ "`"
  | .unknownSwitch text => "unknown option `" ++ text ++ "`"
  | .missingValue switch => "`--" ++ switch.name ++ "` needs a value"
  | .unexpectedValue switch => "`--" ++ switch.name ++ "` takes no value"
  | .repeated switch => "`--" ++ switch.name ++ "` cannot be used more than once"
  | .badValue switch value => "`" ++ value ++ "` is no value for `--" ++ switch.name ++ "`"
  | .missingFile => "an input file is needed"
  | .unexpectedArgument value => "unexpected argument `" ++ value ++ "`"

/-- One use of a switch, with the values it takes. -/
structure Use where
  switch : Switch
  values : List String := []
  deriving DecidableEq, Repr

/-- The arguments of a command. -/
structure Arguments where
  uses : List Use := []
  plain : List String := []
  deriving DecidableEq, Repr

namespace Arguments

/-! ## Negative numbers -/

/-- Digits with one dot, which is not the first character. -/
def isDecimal (cs : List Char) : Bool :=
  let whole := cs.takeWhile Char.isDigit
  match cs.drop whole.length with
  | [] => true
  | '.' :: places => whole ≠ [] && places.all Char.isDigit
  | _ => false

/-- What follows the dash of a negative number: a decimal, with an exponent or without one. -/
def isNumber (cs : List Char) : Bool :=
  let isExponent c := c == 'e' || c == 'E'
  let mantissa := cs.takeWhile (!isExponent ·)
  match cs.drop mantissa.length with
  | [] => isDecimal mantissa
  | _ :: exponent =>
    mantissa ≠ [] && isDecimal mantissa && exponent ≠ [] && exponent.all Char.isDigit

/-! ## Reading -/

/-- Arguments as far as they have been read. -/
structure Draft where
  /-- The uses of switches, last first. -/
  uses : List Use := []
  /-- The plain arguments, last first. -/
  plain : List String := []
  /-- The switch that may take further values, with those it has, last first. -/
  taking : Option Use := none

namespace Draft

/-- The draft once the switch that takes values has taken its last. -/
def close (d : Draft) : Except UsageError Draft :=
  match d.taking with
  | none => .ok d
  | some ⟨switch, []⟩ => .error (.missingValue switch)
  | some ⟨switch, values⟩ =>
    .ok { d with uses := ⟨switch, values.reverse⟩ :: d.uses, taking := none }

/-- Adds a switch, with a value attached or without one. -/
def addSwitch (d : Draft) (switch : Switch) (attached : Option String) :
    Except UsageError Draft := do
  let d ← d.close
  match switch.takes, attached with
  | .nothing, none => return { d with uses := ⟨switch, []⟩ :: d.uses }
  | .nothing, some _ => throw (.unexpectedValue switch)
  | _, none => return { d with taking := some ⟨switch, []⟩ }
  | _, some value => return { d with uses := ⟨switch, [value]⟩ :: d.uses }

/-- Adds an argument that is no switch: a value, if a switch is taking any. -/
def addPlain (d : Draft) (argument : String) : Except UsageError Draft :=
  match d.taking with
  | none => .ok { d with plain := argument :: d.plain }
  | some use =>
    let d := { d with taking := some { use with values := argument :: use.values } }
    if use.switch.takes = .one then d.close else .ok d

/-- Adds the switches of a row of letters. -/
def addLetters (known : List Switch) (d : Draft) : List Char → Except UsageError Draft
  | [] => .ok d
  | c :: rest =>
    match known.find? (·.letter? == some c) with
    | none => .error (.unknownSwitch (String.ofList ['-', c]))
    | some switch =>
      match switch.takes, rest with
      | .nothing, _ => do addLetters known (← d.addSwitch switch none) rest
      | _, [] => d.addSwitch switch none
      | _, '=' :: value => d.addSwitch switch (some (String.ofList value))
      | _, value => d.addSwitch switch (some (String.ofList value))

/-- Adds the switch of a name, which may have a value attached. -/
def addName (known : List Switch) (d : Draft) (text : List Char) : Except UsageError Draft :=
  let name := text.takeWhile (· ≠ '=')
  match known.find? (·.name.toList == name) with
  | none => .error (.unknownSwitch (String.ofList ('-' :: '-' :: name)))
  | some switch =>
    d.addSwitch switch
      (match text.drop name.length with
      | _ :: value => some (String.ofList value)
      | [] => none)

/-- Whether a switch is taking values and would take negative numbers. -/
def takesNegatives (d : Draft) : Bool :=
  d.taking.any (·.switch.takesNegatives)

/-- Adds an argument that stands before any `--`. -/
def add (known : List Switch) (d : Draft) (argument : String) : Except UsageError Draft :=
  match argument.toList with
  | '-' :: '-' :: text => d.addName known text
  | '-' :: c :: rest =>
    if d.takesNegatives && isNumber (c :: rest) then d.addPlain argument
    else d.addLetters known (c :: rest)
  | _ => d.addPlain argument

end Draft

/-- Reads arguments, of which the switches are among the known ones. -/
def read (known : List Switch) (arguments : List String) : Except UsageError Arguments := do
  let before := arguments.takeWhile (· ≠ "--")
  let d ← (← before.foldlM (Draft.add known) {}).close
  return ⟨d.uses.reverse, d.plain.reverse ++ arguments.drop (before.length + 1)⟩

/-! ## Views -/

/-- The values of all uses of a switch. -/
def values (as : Arguments) (switch : Switch) : List String :=
  (as.uses.filter (·.switch = switch)).flatMap (·.values)

/-- Whether a switch stands, which may stand once. -/
def has (as : Arguments) (switch : Switch) : Except UsageError Bool :=
  match as.uses.filter (·.switch = switch) with
  | [] => .ok false
  | [_] => .ok true
  | _ => .error (.repeated switch)

/-- The value of a switch that may stand once and takes one. -/
def value? (as : Arguments) (switch : Switch) : Except UsageError (Option String) := do
  return if ← as.has switch then (as.values switch).head? else none

end Arguments

end AnnaToolchain
