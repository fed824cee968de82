/-! # Diagnostics

    What a user is told about an error: the message, where known the line
    and the bytes of that line at fault, and where there is any, advice. -/

namespace AnnaToolchain

/-- A half-open range of positions. -/
structure Span where
  start : Nat
  stop : Nat
  deriving DecidableEq, Repr

/-- An error as shown to a user. -/
structure Diagnostic where
  /-- The brief message. -/
  message : String
  /-- Advice on how to mend the error. -/
  help : Option String := none
  /-- The source line, counted from one. -/
  line : Option Nat := none
  /-- The bytes of that line at fault; none for the whole line. -/
  span : Option Span := none
  deriving DecidableEq, Repr

end AnnaToolchain
