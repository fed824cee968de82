import AnnaToolchain.Diagnostic

/-! # Registers

    The machine has eight registers, numbered `0` to `7`.  Register `0`
    always reads zero. -/

namespace AnnaToolchain

/-- The number of a register. -/
abbrev Register : Type := Fin 8

/-- A number above seven was given for a register. -/
structure UnknownRegister where
  number : Nat
  deriving DecidableEq, Repr

/-- The error as shown to a user. -/
def UnknownRegister.diagnostic (_ : UnknownRegister) : Diagnostic :=
  { message := "number too large to fit in target type" }

namespace Register

/-- The register that always reads zero. -/
def zero : Register := 0

/-- The register held in the low three bits of a number. -/
def ofBits (n : Nat) : Register :=
  ⟨n % 8, Nat.mod_lt n (by decide)⟩

/-- The register of a given number, if there is one. -/
def ofNat? (n : Nat) : Option Register :=
  if h : n < 8 then some ⟨n, h⟩ else none

/-- The name of a register, `r0` to `r7`. -/
def name (r : Register) : String :=
  "r" ++ toString r.val

/-- The register of a given number, or the number that is none. -/
def ofNumber (n : Nat) : Except UnknownRegister Register :=
  match ofNat? n with
  | some r => .ok r
  | none => .error ⟨n⟩

/-- All registers in order. -/
def all : List Register :=
  List.finRange 8

@[simp] theorem ofBits_val (r : Register) : ofBits r.val = r := by
  apply Fin.ext
  simp [ofBits, Nat.mod_eq_of_lt r.isLt]

theorem val_ofBits (n : Nat) : (ofBits n).val = n % 8 := rfl

end Register

end AnnaToolchain
