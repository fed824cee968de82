import AnnaToolchain.Diagnostic
import AnnaToolchain.Word

/-! # Immediates

    An immediate of `n` bits is a `BitVec n`: a signed one is read with
    `BitVec.toInt`, an unsigned one with `BitVec.toNat`.  A number either
    fits, and then the immediate reads back as that number, or it is refused
    with the range it misses. -/

namespace AnnaToolchain

/-- A number does not fit an immediate of the given number of bits. -/
inductive RangeError where
  | unsigned (bits : Nat)
  | signed (bits : Nat)
  deriving DecidableEq, Repr

namespace RangeError

/-- The brief message. -/
def message : RangeError → String
  | .unsigned bits => "value is too big for unsigned " ++ toString bits ++ "-bit integer"
  | .signed bits => "value is too big for signed " ++ toString bits ++ "-bit integer"

/-- The range that was missed. -/
def help : RangeError → String
  | .unsigned bits =>
      "the range for an unsigned " ++ toString bits ++ "-bit integer is [0, "
        ++ toString (BitVec.allOnes bits).toNat ++ "]"
  | .signed bits =>
      "the range for a signed " ++ toString bits ++ "-bit integer is ["
        ++ toString (BitVec.intMin bits).toInt ++ ", "
        ++ toString (BitVec.intMax bits).toInt ++ "]"

/-- The error as shown to a user. -/
def diagnostic (e : RangeError) : Diagnostic :=
  { message := e.message, help := some e.help }

end RangeError

namespace Immediate

/-- The signed immediate of a number. -/
def signed? (bits : Nat) (n : Int) : Except RangeError (BitVec bits) :=
  if (BitVec.ofInt bits n).toInt = n then .ok (BitVec.ofInt bits n) else .error (.signed bits)

/-- The unsigned immediate of a number. -/
def unsigned? (bits n : Nat) : Except RangeError (BitVec bits) :=
  if (BitVec.ofNat bits n).toNat = n then .ok (BitVec.ofNat bits n) else .error (.unsigned bits)

/-- The byte of a number from `-128` to `255`: negative numbers are signed bytes, all others
    unsigned ones. -/
def byte? (n : Int) : Except RangeError (BitVec 8) :=
  if n < 0 then signed? 8 n else unsigned? 8 n.toNat

/-- A signed immediate widened to a word. -/
def extend {bits : Nat} (imm : BitVec bits) : Word :=
  imm.signExtend 16

/-- A signed immediate in decimal. -/
def text {bits : Nat} (imm : BitVec bits) : String :=
  toString imm.toInt

theorem signed?_ok_iff {bits : Nat} {n : Int} {imm : BitVec bits} :
    signed? bits n = .ok imm ↔ imm.toInt = n := by
  unfold signed?
  constructor
  · intro h
    split at h
    · next hn => cases h; exact hn
    · cases h
  · rintro rfl
    simp

theorem unsigned?_ok_iff {bits n : Nat} {imm : BitVec bits} :
    unsigned? bits n = .ok imm ↔ imm.toNat = n := by
  unfold unsigned?
  constructor
  · intro h
    split at h
    · next hn => cases h; exact hn
    · cases h
  · rintro rfl
    simp

end Immediate

end AnnaToolchain
