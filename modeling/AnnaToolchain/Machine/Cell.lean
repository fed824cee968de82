import AnnaToolchain.Word

/-! # Memory cells

    A cell packs a word and a breakpoint into 32 bits: the word is the low
    half, and the breakpoint is the bit above it.  The other bits are never
    used.  What is set of one leaves the other alone, and there is no more to
    a cell than the two (`Cell.ext_iff`). -/

namespace AnnaToolchain

/-- A memory cell. -/
structure Cell where
  bits : BitVec 32
  /-- The word and the breakpoint are all that is used. -/
  bits_lt : bits.toNat < 0x20000
  deriving DecidableEq

namespace Cell

/-- No bit is used that was used on neither side. -/
theorem or_lt {a b : Nat} (ha : a < 0x20000) (hb : b < 0x20000) : a ||| b < 0x20000 :=
  Nat.or_lt_two_pow (n := 17) ha hb

/-- The bits of the word. -/
def dataMask : BitVec 32 :=
  0xFFFF

/-- The bit of the breakpoint. -/
def breakBit : BitVec 32 :=
  1 <<< 16

/-- A cell with a word and no breakpoint. -/
def ofWord (data : Word) : Cell where
  bits := data.setWidth 32
  bits_lt := by
    rw [BitVec.toNat_setWidth]
    exact Nat.lt_of_le_of_lt (Nat.mod_le _ _) (Nat.lt_trans data.isLt (by decide))

/-- The word of a cell. -/
def data (c : Cell) : Word :=
  (c.bits &&& dataMask).setWidth 16

/-- Replaces the word. -/
def setData (c : Cell) (data : Word) : Cell where
  bits := (c.bits &&& ~~~dataMask) ||| (ofWord data).bits
  bits_lt := by
    rw [BitVec.toNat_or, BitVec.toNat_and]
    exact or_lt (Nat.lt_of_le_of_lt Nat.and_le_left c.bits_lt) (ofWord data).bits_lt

/-- Whether a breakpoint is set. -/
def breakpoint (c : Cell) : Bool :=
  c.bits &&& breakBit != 0

/-- Sets or clears the breakpoint. -/
def setBreakpoint (c : Cell) : (on : Bool) → Cell
  | true =>
    { bits := c.bits ||| breakBit
      bits_lt := by
        rw [BitVec.toNat_or]
        exact or_lt c.bits_lt (by decide) }
  | false =>
    { bits := c.bits &&& ~~~breakBit
      bits_lt := by
        rw [BitVec.toNat_and]
        exact Nat.lt_of_le_of_lt Nat.and_le_left c.bits_lt }

/-! ## Bits -/

section

variable (c : Cell) (word : Word) (on : Bool) (i : Nat)

theorem breakBit_eq : breakBit = BitVec.twoPow 32 16 := by
  decide

theorem getLsbD_dataMask : dataMask.getLsbD i = decide (i < 16) := by
  have hmask : dataMask = (BitVec.allOnes 16).setWidth 32 := by decide
  rw [hmask, BitVec.getLsbD_setWidth, BitVec.getLsbD_allOnes]
  by_cases hi : i < 16
  · simp only [hi, Nat.lt_trans hi (by decide : 16 < 32), decide_true, Bool.and_self]
  · simp only [hi, decide_false, Bool.and_false]

theorem getLsbD_breakBit : breakBit.getLsbD i = decide (i = 16) := by
  rw [breakBit_eq, BitVec.getLsbD_twoPow]
  simp [eq_comm]

theorem getLsbD_ofWord : (ofWord word).bits.getLsbD i = word.getLsbD i := by
  unfold ofWord
  rw [BitVec.getLsbD_setWidth]
  by_cases hi : i < 32
  · simp [hi]
  · simp [hi, BitVec.getLsbD_of_ge word i (by omega)]

theorem getLsbD_data : c.data.getLsbD i = (decide (i < 16) && c.bits.getLsbD i) := by
  unfold data
  rw [BitVec.getLsbD_setWidth, BitVec.getLsbD_and, getLsbD_dataMask]
  by_cases hi : i < 16 <;> simp [hi]

theorem breakpoint_eq : c.breakpoint = c.bits.getLsbD 16 := by
  unfold breakpoint
  rw [breakBit_eq, BitVec.and_twoPow]
  cases c.bits.getLsbD 16 <;> decide

theorem getLsbD_setData : (c.setData word).bits.getLsbD i
    = if i < 16 then word.getLsbD i else c.bits.getLsbD i := by
  unfold setData
  rw [BitVec.getLsbD_or, BitVec.getLsbD_and, BitVec.getLsbD_not, getLsbD_dataMask, getLsbD_ofWord]
  by_cases hi : i < 16
  · simp [hi]
  · by_cases hi' : i < 32
    · simp [hi, hi', BitVec.getLsbD_of_ge word i (by omega)]
    · simp [hi, BitVec.getLsbD_of_ge word i (by omega), BitVec.getLsbD_of_ge c.bits i (by omega)]

theorem getLsbD_setBreakpoint : (c.setBreakpoint on).bits.getLsbD i
    = if i = 16 then on else c.bits.getLsbD i := by
  cases on with
  | true =>
    unfold setBreakpoint
    rw [BitVec.getLsbD_or, getLsbD_breakBit]
    by_cases hi : i = 16 <;> simp [hi]
  | false =>
    unfold setBreakpoint
    rw [BitVec.getLsbD_and, BitVec.getLsbD_not, getLsbD_breakBit]
    by_cases hi : i = 16
    · simp [hi]
    · by_cases hi' : i < 32
      · simp [hi, hi']
      · simp [hi, hi', BitVec.getLsbD_of_ge c.bits i (by omega)]

/-- No bit above the breakpoint is set. -/
theorem getLsbD_eq_false (hi : 16 < i) : c.bits.getLsbD i = false := by
  have hused : c.bits.toNat < 2 ^ 17 := c.bits_lt
  have hlt : c.bits.toNat < 2 ^ i :=
    Nat.lt_of_lt_of_le hused (Nat.pow_le_pow_right (by decide) hi)
  exact Nat.testBit_lt_two_pow hlt

/-! ## Words and breakpoints -/

@[simp] theorem data_ofWord : (ofWord word).data = word := by
  refine BitVec.eq_of_getLsbD_eq fun i hi => ?_
  rw [getLsbD_data, getLsbD_ofWord, decide_eq_true hi, Bool.true_and]

@[simp] theorem breakpoint_ofWord : (ofWord word).breakpoint = false := by
  rw [breakpoint_eq, getLsbD_ofWord, BitVec.getLsbD_of_ge word 16 (Nat.le_refl 16)]

@[simp] theorem data_setData : (c.setData word).data = word := by
  refine BitVec.eq_of_getLsbD_eq fun i hi => ?_
  rw [getLsbD_data, getLsbD_setData, decide_eq_true hi, Bool.true_and, if_pos hi]

/-- A breakpoint stays when a word is written. -/
@[simp] theorem breakpoint_setData : (c.setData word).breakpoint = c.breakpoint := by
  rw [breakpoint_eq, breakpoint_eq, getLsbD_setData, if_neg (Nat.lt_irrefl 16)]

/-- A word stays when a breakpoint is set or cleared. -/
@[simp] theorem data_setBreakpoint : (c.setBreakpoint on).data = c.data := by
  refine BitVec.eq_of_getLsbD_eq fun i hi => ?_
  rw [getLsbD_data, getLsbD_data, getLsbD_setBreakpoint, if_neg (Nat.ne_of_lt hi)]

@[simp] theorem breakpoint_setBreakpoint : (c.setBreakpoint on).breakpoint = on := by
  rw [breakpoint_eq, getLsbD_setBreakpoint, if_pos rfl]

end

/-- **Cells** are told apart by their words and their breakpoints. -/
theorem ext_iff {c c' : Cell} : c = c' ↔ c.data = c'.data ∧ c.breakpoint = c'.breakpoint := by
  constructor
  · rintro rfl
    exact ⟨rfl, rfl⟩
  · rintro ⟨hdata, hbreak⟩
    have hbits : c.bits = c'.bits := by
      refine BitVec.eq_of_getLsbD_eq fun i _ => ?_
      rcases Nat.lt_trichotomy i 16 with hi | rfl | hi
      · have hbit := congrArg (BitVec.getLsbD · i) hdata
        simpa only [getLsbD_data, hi, decide_true, Bool.true_and] using hbit
      · rwa [breakpoint_eq, breakpoint_eq] at hbreak
      · rw [getLsbD_eq_false c i hi, getLsbD_eq_false c' i hi]
    cases c
    cases c'
    cases hbits
    rfl

/-- The word set last is the one that counts. -/
theorem setData_setData (c : Cell) (word word' : Word) :
    (c.setData word).setData word' = c.setData word' := by
  rw [ext_iff]
  simp

/-- It does not matter which of the two is set first. -/
theorem setBreakpoint_setData (c : Cell) (word : Word) (on : Bool) :
    (c.setData word).setBreakpoint on = (c.setBreakpoint on).setData word := by
  rw [ext_iff]
  simp

end Cell

end AnnaToolchain
