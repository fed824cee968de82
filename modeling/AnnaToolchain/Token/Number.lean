import AnnaToolchain.Token.Basic

/-! # Numbers in source text

    A number is decimal, or hexadecimal behind `0x`, or binary behind `0b`.
    Its digits are read from left to right into 32 bits and the first
    problem counts: a character that is no digit of the base, or a digit
    that takes the value past 32 bits.  Only then is the value brought into
    16 bits. -/

namespace AnnaToolchain

/-- The base a number is written in. -/
inductive NumberBase where
  | decimal | hexadecimal | binary
  deriving DecidableEq, Repr

namespace NumberBase

/-- The number of different digits. -/
def radix : NumberBase → Nat
  | .decimal => 10
  | .hexadecimal => 16
  | .binary => 2

/-- The error for a character that is no digit of the base. -/
def badDigit : NumberBase → LexError
  | .decimal => .badDecimalDigit
  | .hexadecimal => .badHexDigit
  | .binary => .badBinaryDigit

/-- The error for a number without digits. -/
def missingDigits : NumberBase → LexError
  | .decimal => .noDigits
  | .hexadecimal | .binary => .noDigitsAfterBase

/-- The base of a number, and its digits. -/
def split : List Char → NumberBase × List Char
  | '0' :: 'x' :: digits => (.hexadecimal, digits)
  | '0' :: 'X' :: digits => (.hexadecimal, digits)
  | '0' :: 'b' :: digits => (.binary, digits)
  | '0' :: 'B' :: digits => (.binary, digits)
  | digits => (.decimal, digits)

end NumberBase

namespace Token

/-- Takes one more digit into a value, which has to stay within 32 bits. -/
def takeDigit (base : NumberBase) (tooBig : LexError) (value : Nat) (c : Char) :
    Except LexError Nat :=
  match Text.digitOf? base.radix c with
  | none => .error base.badDigit
  | some d =>
    if value * base.radix + d < UInt32.size then .ok (value * base.radix + d) else .error tooBig

/-- The value of a number without sign, below `2 ^ 32`. -/
def magnitude (tooBig : LexError) (cs : List Char) : Except LexError Nat :=
  let number := NumberBase.split cs
  if number.2 = [] then .error number.1.missingDigits
  else number.2.foldlM (takeDigit number.1 tooBig) 0

/-- A number without sign: at most `65535`. -/
def readUnsigned (cs : List Char) : Except LexError Word := do
  let n ← magnitude .unsignedTooBig cs
  if n < UInt16.size then return BitVec.ofNat 16 n else throw .unsignedTooBig

/-- The number behind a minus sign: at least `-32768`. -/
def readSigned (cs : List Char) : Except LexError Word := do
  let n ← magnitude .signedTooBig cs
  if n ≤ 32768 then return Word.ofInt (-n) else throw .signedTooBig

/-- The register of a number: ASCII digits with a value below eight. -/
def readRegister (cs : List Char) : Except LexError Register :=
  match (Text.valueOf? 10 cs).bind Register.ofNat? with
  | some r => .ok r
  | none => .error .badRegister

end Token

end AnnaToolchain
