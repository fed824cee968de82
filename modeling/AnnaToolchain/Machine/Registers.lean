import AnnaToolchain.Register
import AnnaToolchain.Word

/-! # The register file

    Eight words, of which the first is always zero: what is written to `r0`
    is lost. -/

namespace AnnaToolchain

/-- The values of the registers. -/
structure Registers where
  values : Vector Word 8
  /-- `r0` reads zero. -/
  values_zero : values[0] = 0
  deriving DecidableEq, Repr

namespace Registers

/-- All registers zero. -/
def zeroed : Registers :=
  ⟨Vector.replicate 8 0, by simp⟩

/-- The value of a register. -/
def get (regs : Registers) (r : Register) : Word :=
  regs.values[r]

/-- Writes a register, unless it is `r0`. -/
def set (regs : Registers) (r : Register) (value : Word) : Registers :=
  if h : r = Register.zero then regs
  else
    { values := regs.values.set r value
      values_zero := by
        have hr : (r : Nat) ≠ 0 := fun e => h (Fin.ext e)
        simp [hr, regs.values_zero] }

/-- The values in order. -/
def toList (regs : Registers) : List Word :=
  regs.values.toList

@[simp] theorem get_zeroed (r : Register) : zeroed.get r = 0 := by
  simp [zeroed, get]

@[simp] theorem get_zero (regs : Registers) : regs.get Register.zero = 0 :=
  regs.values_zero

@[simp] theorem set_zero (regs : Registers) (value : Word) :
    regs.set Register.zero value = regs := by
  simp [set]

theorem get_set (regs : Registers) (r s : Register) (value : Word) :
    (regs.set r value).get s
      = if r = s ∧ r ≠ Register.zero then value else regs.get s := by
  unfold set get
  by_cases h : r = Register.zero
  · simp [h]
  · by_cases hs : r = s
    · subst hs; simp [h]
    · have : (r : Nat) ≠ s := fun e => hs (Fin.ext e)
      simp [h, hs, this]

@[simp] theorem get_set_self (regs : Registers) {r : Register} (value : Word)
    (h : r ≠ Register.zero) : (regs.set r value).get r = value := by
  simp [get_set, h]

@[simp] theorem get_set_ne (regs : Registers) {r s : Register} (value : Word) (h : r ≠ s) :
    (regs.set r value).get s = regs.get s := by
  simp [get_set, h]

theorem ext_get {a b : Registers} (h : ∀ r, a.get r = b.get r) : a = b := by
  obtain ⟨a, _⟩ := a
  obtain ⟨b, _⟩ := b
  congr 1
  apply Vector.ext
  intro i hi
  exact h ⟨i, hi⟩

end Registers

end AnnaToolchain
