import AnnaToolchain.Proofs.Machine.Instructions
import Mathlib.Data.Int.ModEq
import Mathlib.Data.Rat.Floor

/-! # Exact arithmetic

    Arithmetic is that of the integers: every result is the word that is
    congruent to the exact one modulo `2 ^ 16` (`arithmetic_exact`).

    * sums, differences and products wrap;
    * division truncates, and there is one quotient that no word holds: that
      of the least number by minus one;
    * a shift multiplies by a power of two, which may be negative, and rounds
      down; there is no amount that is too much. -/

namespace AnnaToolchain

namespace Word

/-! ## Words and integers -/

section

variable (a b : Word)

theorem add_modEq : (a + b).toInt ≡ a.toInt + b.toInt [ZMOD 65536] := by
  rw [BitVec.toInt_add]
  exact Int.bmod_emod

theorem sub_modEq : (a - b).toInt ≡ a.toInt - b.toInt [ZMOD 65536] := by
  rw [BitVec.toInt_sub]
  exact Int.bmod_emod

theorem mul_modEq : (a * b).toInt ≡ a.toInt * b.toInt [ZMOD 65536] := by
  rw [BitVec.toInt_mul]
  exact Int.bmod_emod

/-- Both readings of a word are the same up to `2 ^ 16`. -/
theorem toNat_modEq : (a.toNat : Int) ≡ a.toInt [ZMOD 65536] := by
  rw [BitVec.toInt_eq_toNat_bmod]
  exact Int.bmod_emod.symm

end

/-! ## Division -/

/-- A truncated division of words. -/
structure Divided (a b q r : Word) : Prop where
  /-- The quotient is truncated, and reduced if no word holds it. -/
  quotient : q.toInt ≡ a.toInt.tdiv b.toInt [ZMOD 65536]
  /-- Only one quotient has to be reduced. -/
  unreduced : ¬ (a.toInt = -32768 ∧ b.toInt = -1) → q.toInt = a.toInt.tdiv b.toInt
  remainder : r.toInt = a.toInt.tmod b.toInt
  whole : a.toInt ≡ b.toInt * q.toInt + r.toInt [ZMOD 65536]
  small : |r.toInt| < |b.toInt|
  sign : r.toInt = 0 ∨ r.toInt.sign = a.toInt.sign
  /-- The least number is divided by minus one. -/
  extreme : a.toInt = -32768 → b.toInt = -1 → q.toInt = -32768 ∧ r.toInt = 0

/-- **Division** of words is truncated, and wraps where no word holds the quotient. -/
theorem divided (a : Word) {b : Word} (hb : b.toInt ≠ 0) : Divided a b (a.sdiv b) (a.srem b) := by
  have hquotient : (a.sdiv b).toInt ≡ a.toInt.tdiv b.toInt [ZMOD 65536] := by
    rw [BitVec.toInt_sdiv]
    exact Int.bmod_emod
  have hremainder : (a.srem b).toInt = a.toInt.tmod b.toInt := BitVec.toInt_srem a b
  refine ⟨hquotient, ?_, hremainder, ?_, ?_, ?_, ?_⟩
  · intro hne
    refine BitVec.toInt_sdiv_of_ne_or_ne a b ?_
    rw [← not_and_or]
    rintro ⟨rfl, rfl⟩
    exact hne ⟨by decide, by decide⟩
  · calc a.toInt = b.toInt * a.toInt.tdiv b.toInt + a.toInt.tmod b.toInt :=
          (Int.mul_tdiv_add_tmod a.toInt b.toInt).symm
      _ ≡ b.toInt * (a.sdiv b).toInt + (a.srem b).toInt [ZMOD 65536] := by
          rw [hremainder]
          exact (hquotient.symm.mul_left _).add_right _
  · rw [hremainder, Int.abs_eq_natAbs, Int.abs_eq_natAbs, Int.natAbs_tmod]
    exact Int.ofNat_lt.mpr (Nat.mod_lt _ (Int.natAbs_pos.mpr hb))
  · rw [hremainder, Int.sign_tmod]
    split
    · next hdvd => exact .inl (Int.tmod_eq_zero_of_dvd hdvd)
    · exact .inr rfl
  · intro ha hb
    rw [BitVec.toInt_sdiv, hremainder, ha, hb]
    decide

/-! ## Shifts -/

/-- A shift to the left multiplies. -/
theorem shiftLeft_modEq (w : Word) (n : Nat) :
    (w <<< n).toInt ≡ w.toInt * 2 ^ n [ZMOD 65536] := by
  have hleft : (w <<< n).toInt ≡ (w.toNat : Int) * 2 ^ n [ZMOD 65536] := by
    rw [BitVec.toInt_shiftLeft, Nat.shiftLeft_eq, Int.natCast_mul, Int.natCast_pow]
    exact Int.bmod_emod
  exact hleft.trans (w.toNat_modEq.mul_right _)

/-- **Shifts** are exact up to `2 ^ 16`, by any amount to either side. -/
theorem shift_modEq (w : Word) (amount : Int) :
    (w.shift amount).toInt ≡ ⌊(w.toInt : ℚ) * 2 ^ amount⌋ [ZMOD 65536] := by
  unfold shift
  split
  · next hpos =>
    obtain ⟨n, rfl⟩ := Int.eq_ofNat_of_zero_le (Int.le_of_lt hpos)
    have hproduct : (w.toInt : ℚ) * 2 ^ (n : Int) = ((w.toInt * 2 ^ n : Int) : ℚ) := by
      rw [zpow_natCast]
      push_cast
      rfl
    rw [hproduct, Int.floor_intCast, Int.toNat_natCast]
    exact w.shiftLeft_modEq n
  · next hpos =>
    obtain ⟨n, hn⟩ := Int.eq_ofNat_of_zero_le (Int.neg_nonneg_of_nonpos (Int.not_lt.mp hpos))
    obtain rfl : amount = -(n : Int) := by omega
    have hquotient : (w.toInt : ℚ) * 2 ^ (-(n : Int)) = (w.toInt : ℚ) / ((2 ^ n : Nat) : ℚ) := by
      rw [zpow_neg, zpow_natCast, ← div_eq_mul_inv]
      push_cast
      rfl
    rw [hquotient, Rat.floor_intCast_div_natCast, neg_neg, Int.toNat_natCast,
      BitVec.toInt_sshiftRight, Int.shiftRight_eq_div_pow]

example : shift 1 31 = 0 ∧ shift 0x8000 (-32) = 0xFFFF := by decide

end Word

/-! ## Instructions -/

namespace Machine

/-- The instruction leaves a word in its register, unless that is `r0`, and changes nothing else;
    the next one follows it. -/
structure Leaves (m : Machine) (i : Instruction) (w : Word) : Prop where
  next : (m.execute i).2 = .ok (m.pc + 1)
  value : i.rd ≠ .zero → (m.execute i).1.register i.rd = w
  others : ∀ r, r ≠ i.rd → (m.execute i).1.register r = m.register r
  rest : (m.execute i).1 = { m with registers := (m.execute i).1.registers }

variable {m : Machine} {i : Instruction} {w : Word}

theorem Leaves.of_action (h : m.action i = .ok (.set i.rd w)) : m.Leaves i w := by
  have hexecute : m.execute i = (m.setRegister i.rd w, .ok (m.pc + 1)) := by
    unfold execute
    rw [h]
    rfl
  refine ⟨?_, ?_, ?_, ?_⟩
  · rw [hexecute]
  · intro hrd
    rw [hexecute]
    exact m.registers.get_set_self w hrd
  · intro r hr
    rw [hexecute]
    exact m.registers.get_set_ne w hr.symm
  · rw [hexecute]
    rfl

section

variable (m : Machine) (rd rs1 rs2 : Register)

theorem leaves_math {op : MathOp} (h : (Opcode.math op).format = .r)
    (hw : op.eval? (m.register rs1) (m.register rs2) = some w) :
    m.Leaves (.ofRegisters (.math op) h rd rs1 rs2) w := by
  apply Leaves.of_action
  simp [action, hw]

theorem leaves_addi (h : Opcode.addi.format = .imm6) (imm : BitVec 6) :
    m.Leaves (.ofImm6 .addi h rd rs1 imm) (m.register rs1 + Immediate.extend imm) := by
  apply Leaves.of_action
  rw [Instruction.rd_ofImm6]
  exact m.action_addi rd rs1 h imm

theorem leaves_shf (h : Opcode.shf.format = .imm6) (imm : BitVec 6) :
    m.Leaves (.ofImm6 .shf h rd rs1 imm) ((m.register rs1).shift imm.toInt) := by
  apply Leaves.of_action
  simp only [action, plainAction, Instruction.opcode_ofImm6, Instruction.rs1_ofImm6,
    Instruction.imm6_ofImm6, Instruction.rd_ofImm6]
  rfl

/-- An operation that has no value for a divisor of zero, and only then, fails just if the divisor
    is zero. -/
theorem execute_divideByZero_iff {op : MathOp} (h : (Opcode.math op).format = .r)
    (hnone : ∀ a b, op.eval? a b = none ↔ b = 0) :
    (m.execute (.ofRegisters (.math op) h rd rs1 rs2)).2 = .error .divideByZero
      ↔ (m.register rs2).toInt = 0 := by
  have hzero : (m.register rs2).toInt = 0 ↔ m.register rs2 = 0 := by
    rw [← BitVec.toInt_inj]
    rfl
  rw [hzero, ← hnone (m.register rs1)]
  cases hvalue : op.eval? (m.register rs1) (m.register rs2) with
  | none => simp [execute, action, hvalue]
  | some w =>
    rw [(m.leaves_math rd rs1 rs2 h hvalue).next]
    constructor
    · intro hfails
      cases hfails
    · intro hzero
      cases hzero

end

/-- **Arithmetic.**  Whatever the state of the machine and whichever the registers, arithmetic
    instructions compute with the signed values of their operands, and leave the word of the exact
    result; only division by zero fails. -/
theorem arithmetic_exact (m : Machine) (rd rs1 rs2 : Register) (imm : BitVec 6) :
    let a := m.register rs1
    let b := m.register rs2
    let math op := Instruction.ofRegisters (.math op) rfl rd rs1 rs2
    (∃ w, m.Leaves (math .add) w ∧ w.toInt ≡ a.toInt + b.toInt [ZMOD 65536]) ∧
    (∃ w, m.Leaves (math .sub) w ∧ w.toInt ≡ a.toInt - b.toInt [ZMOD 65536]) ∧
    (∃ w, m.Leaves (math .mul) w ∧ w.toInt ≡ a.toInt * b.toInt [ZMOD 65536]) ∧
    ((m.execute (math .div)).2 = .error .divideByZero ↔ b.toInt = 0) ∧
    ((m.execute (math .mod)).2 = .error .divideByZero ↔ b.toInt = 0) ∧
    (b.toInt ≠ 0 →
      ∃ q r, m.Leaves (math .div) q ∧ m.Leaves (math .mod) r ∧ Word.Divided a b q r) ∧
    (∃ w, m.Leaves (.ofImm6 .addi rfl rd rs1 imm) w ∧
      w.toInt ≡ a.toInt + imm.toInt [ZMOD 65536]) ∧
    (∃ w, m.Leaves (.ofImm6 .shf rfl rd rs1 imm) w ∧
      w.toInt ≡ ⌊(a.toInt : ℚ) * 2 ^ imm.toInt⌋ [ZMOD 65536]) := by
  intro a b math
  have hmath {op : MathOp} {w : Word} (hw : op.eval? a b = some w) : m.Leaves (math op) w :=
    m.leaves_math rd rs1 rs2 rfl hw
  refine ⟨?add, ?sub, ?mul, ?divFails, ?modFails, ?divides, ?addi, ?shf⟩
  case add => exact ⟨a + b, hmath rfl, a.add_modEq b⟩
  case sub => exact ⟨a - b, hmath rfl, a.sub_modEq b⟩
  case mul => exact ⟨a * b, hmath rfl, a.mul_modEq b⟩
  case divFails => exact m.execute_divideByZero_iff rd rs1 rs2 rfl fun a b => by simp [MathOp.eval?]
  case modFails => exact m.execute_divideByZero_iff rd rs1 rs2 rfl fun a b => by simp [MathOp.eval?]
  case divides =>
    intro hb
    have hne : b ≠ 0 := fun hzero => hb (by rw [hzero]; rfl)
    exact ⟨a.sdiv b, a.srem b, hmath (if_neg hne), hmath (if_neg hne), a.divided hb⟩
  case addi =>
    have hextend : (Immediate.extend imm).toInt = imm.toInt :=
      BitVec.toInt_signExtend_of_le (by decide)
    refine ⟨a + Immediate.extend imm, m.leaves_addi rd rs1 rfl imm, ?_⟩
    rw [← hextend]
    exact a.add_modEq _
  case shf => exact ⟨a.shift imm.toInt, m.leaves_shf rd rs1 rfl imm, a.shift_modEq imm.toInt⟩

end Machine

end AnnaToolchain
