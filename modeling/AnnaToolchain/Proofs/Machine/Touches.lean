import AnnaToolchain.Proofs.Machine.Instructions
import AnnaToolchain.Proofs.Outcome

/-! # Cells that instructions touch

    The next instruction of a machine reads and writes cells whose addresses
    are known before it is executed (`touches`).  It does nothing else to
    memory (`within_of_action`).  So code of which no instruction touches
    any cell never changes (`Steps.quiet`). -/

namespace AnnaToolchain

/-- Whether an instruction may go on elsewhere than behind it. -/
def Opcode.isJump : Opcode → Bool
  | .jalr | .branch _ => true
  | _ => false

/-- Whether an instruction neither reads nor writes memory. -/
def Opcode.isQuiet : Opcode → Bool
  | .lw | .sw | .output .text => false
  | _ => true

/-! ## Cells that are touched -/

namespace Memory

/-- The addresses that are read for a text, that of the zero behind it included. -/
def textAddresses (m : Memory) (address : Word) : (count : Nat) → List Word
  | 0 => []
  | count + 1 =>
    m.wrap address ::
      if (m.read address).toNat = 0 then [] else textAddresses m (address + 1) count

/-- A text depends on the cells that are read for it. -/
theorem readChars_of_textAddresses {m m' : Memory} (hlength : m.length = maxMemory) {count : Nat}
    {address : Word} (acc : List Char)
    (h : ∀ a ∈ m.textAddresses address count, m'.read a = m.read a) :
    m'.readChars address acc count = m.readChars address acc count := by
  induction count generalizing address acc with
  | zero => rfl
  | succ count ih =>
    unfold textAddresses at h
    obtain ⟨hfirst, hrest⟩ := List.forall_mem_cons.mp h
    rw [wrap_eq hlength] at hfirst
    unfold readChars
    simp only [hfirst]
    split
    · rfl
    · next hne =>
      rw [if_neg hne] at hrest
      exact ih _ hrest

end Memory

/-- An action that goes on behind the instruction, and touches no other cells than those given. -/
def Action.Within (addresses : List Word) : Action → Prop
  | .goto _ | .link _ _ => False
  | .load _ address | .store address _ => address ∈ addresses
  | .set _ _ | .input _ | .print _ | .halt => True

namespace Machine

/-- The addresses of the cells that the next instruction reads or writes. -/
def touches (m : Machine) : List Word :=
  match Instruction.decode (m.memory.read m.pc) with
  | .error _ => []
  | .ok i =>
    match i.opcode with
    | .lw | .sw => (m.effectiveAddress i).toOption.toList
    | .output .text =>
      if i.rd = Register.zero then []
      else m.memory.textAddresses (m.register i.rd) m.memory.length
    | _ => []

/-- The machine is below `n`, and its next instruction touches no cell there. -/
structure Confined (n : Nat) (m : Machine) : Prop where
  pc : m.pc.toNat < n
  touches : ∀ a ∈ m.touches, n ≤ a.toNat

section

variable {m : Machine} {i : Instruction} {a : Action}

/-- An instruction other than a jump does nothing but what it says. -/
theorem within_of_action (hd : Instruction.decode (m.memory.read m.pc) = .ok i)
    (hjump : i.opcode.isJump = false) (ha : m.action i = .ok a) : a.Within m.touches := by
  unfold touches
  simp only [hd]
  unfold action at ha
  cases hop : i.opcode with
  | math op =>
    simp only [hop] at ha
    split at ha
    · split at ha
      · cases ha
        trivial
      · cases ha
    · cases ha
    · cases ha
  | jalr | branch cond => simp [hop, Opcode.isJump] at hjump
  | input =>
    simp only [hop, plainAction] at ha
    cases ha
    trivial
  | addi | shf =>
    simp only [hop, plainAction] at ha
    obtain ⟨_, -, ha⟩ := bind_eq_ok (mapError_eq_ok ha)
    obtain ⟨_, -, ha⟩ := bind_eq_ok ha
    cases ha
    trivial
  | lw | sw =>
    simp only [hop, plainAction] at ha
    obtain ⟨address, haddress, ha⟩ := bind_eq_ok (mapError_eq_ok ha)
    cases ha
    show address ∈ (m.effectiveAddress i).toOption.toList
    rw [haddress]
    exact List.mem_singleton_self address
  | lli | lui =>
    simp only [hop, plainAction] at ha
    obtain ⟨_, -, ha⟩ := bind_eq_ok (mapError_eq_ok ha)
    cases ha
    trivial
  | output kind =>
    simp only [hop, plainAction] at ha
    cases ha
    by_cases hzero : i.rd = Register.zero
    · simp only [if_pos hzero]
      trivial
    · simp only [if_neg hzero]
      trivial

end

/-! ## Code that touches nothing -/

section

variable {m m₁ : Machine} {i : Instruction}

theorem touches_of_isQuiet (hd : Instruction.decode (m.memory.read m.pc) = .ok i)
    (hquiet : i.opcode.isQuiet = true) : m.touches = [] := by
  unfold touches
  simp only [hd]
  cases hop : i.opcode with
  | lw | sw => simp [hop, Opcode.isQuiet] at hquiet
  | output kind =>
    cases kind with
    | text => simp [hop, Opcode.isQuiet] at hquiet
    | number | line => rfl
  | _ => rfl

/-- Only a store changes memory. -/
theorem perform_memory {a : Action} (ha : ∀ address value, a ≠ .store address value) :
    (m.perform a).1.memory = m.memory := by
  cases a with
  | store address value => exact absurd rfl (ha address value)
  | input rd =>
    unfold perform
    cases m.input <;> rfl
  | print value =>
    obtain ⟨outputs, hprint⟩ := m.perform_print_fst value
    rw [hprint]
  | _ => rfl

theorem action_ne_store (hd : Instruction.decode (m.memory.read m.pc) = .ok i)
    (hquiet : i.opcode.isQuiet = true) (address value : Word) :
    m.action i ≠ .ok (.store address value) := by
  intro ha
  cases hjump : i.opcode.isJump with
  | false =>
    have hwithin := within_of_action hd hjump ha
    rw [touches_of_isQuiet hd hquiet] at hwithin
    cases hwithin
  | true =>
    -- a jump goes somewhere
    unfold action plainAction at ha
    cases hop : i.opcode with
    | jalr =>
      simp only [hop] at ha
      obtain ⟨_, -, ha⟩ := bind_eq_ok (mapError_eq_ok ha)
      cases ha
    | branch cond =>
      simp only [hop] at ha
      have ha := mapError_eq_ok ha
      split at ha
      · obtain ⟨_, -, ha⟩ := bind_eq_ok ha
        cases ha
      · cases ha
    | _ => simp [hop, Opcode.isJump] at hjump

theorem memory_of_isQuiet (hd : Instruction.decode (m.memory.read m.pc) = .ok i)
    (hquiet : i.opcode.isQuiet = true) (hw : m.attempt = .went m₁) : m₁.memory = m.memory := by
  have hspec := attempt_spec m
  rw [hw] at hspec
  cases hspec with
  | @went j m' next hd' hh he hs =>
    cases hd.symm.trans hd'
    have hne : ∀ address value, m.start.action i ≠ .ok (.store address value) :=
      action_ne_store (m := m.start) hd hquiet
    show m'.memory = m.start.memory
    unfold execute at he
    cases ha : m.start.action i with
    | error fault => simp [ha] at he
    | ok a =>
      simp only [ha] at he
      have hmemory := perform_memory (m := m.start) (a := a) fun address value heq =>
        hne address value (heq ▸ ha)
      rwa [he] at hmemory

end

/-- **Quiet code** is never changed, and touches nothing. -/
theorem Steps.quiet {k : Nat} {m m₁ : Machine} {code : Word → Word} (h : Steps k m m₁)
    (hcode : ∀ a, m.memory.read a = code a)
    (hquiet : ∀ a, ∃ i, Instruction.decode (code a) = .ok i ∧ i.opcode.isQuiet = true) :
    m₁.memory = m.memory ∧ m₁.touches = [] := by
  induction h with
  | refl m =>
    obtain ⟨i, hd, hi⟩ := hquiet m.pc
    rw [← hcode] at hd
    exact ⟨rfl, touches_of_isQuiet hd hi⟩
  | @step k m m₁ m₂ _ hw _ ih =>
    obtain ⟨i, hd, hi⟩ := hquiet m.pc
    rw [← hcode] at hd
    have hmemory := memory_of_isQuiet hd hi hw
    rw [← hmemory]
    exact ih (by rw [hmemory]; exact hcode)

/-! ## Words that do nothing -/

/-- A word of zero is an instruction that writes zero to `r0`. -/
theorem zero_eq_encode :
    (0 : Word) = (Instruction.ofRegisters (.math .add) rfl .zero .zero .zero).encode := rfl

/-- A row of zeros is passed through, and nothing happens. -/
theorem reaches_zeros {m : Machine} {k : Nat} (hlength : m.memory.length = maxMemory)
    (hclear : ∀ a, m.memory.hasBreakpoint a = false)
    (hzero : ∀ j < k, m.memory.read (m.pc + BitVec.ofNat 16 j) = 0) :
    m.Reaches k (m.pc + BitVec.ofNat 16 k) m.registers m.memory := by
  induction k generalizing m with
  | zero => exact ⟨m, .refl m, (Word.add_ofNat_zero m.pc).symm, rfl, rfl, rfl, rfl, rfl⟩
  | succ k ih =>
    have hfaces : m.Faces (.ofRegisters (.math .add) rfl .zero .zero .zero) := by
      have hfirst := hzero 0 (Nat.zero_lt_succ k)
      rw [Word.add_ofNat_zero] at hfirst
      exact ⟨hfirst.trans zero_eq_encode, by simp [atBreakpoint, hclear]⟩
    obtain ⟨m₁, hsteps, hmoved⟩ := hfaces.set (action_add m .zero .zero .zero rfl)
    rw [Registers.set_zero, Memory.wrap_eq hlength] at hmoved
    have hnext (j : Nat) : m₁.pc + BitVec.ofNat 16 j = m.pc + BitVec.ofNat 16 (j + 1) := by
      rw [hmoved.pc, Word.add_one_add_ofNat]
    have hrest := ih (m := m₁) (by rw [hmoved.memory, hlength])
      (by rw [hmoved.memory]; exact hclear) fun j hj => by
        rw [hnext, hmoved.memory]
        exact hzero (j + 1) (Nat.succ_lt_succ hj)
    rw [hnext, hmoved.registers, hmoved.memory] at hrest
    have hall := hsteps.reaches hmoved hrest
    rwa [Nat.add_comm 1 k] at hall

/-- Where there are only zeros up to the end of memory, a machine comes to the front. -/
theorem reaches_front {m : Machine} {i : Nat} (hlength : m.memory.length = maxMemory)
    (hclear : ∀ a, m.memory.hasBreakpoint a = false) (hpc : m.pc = BitVec.ofNat 16 i)
    (hi : i ≤ maxMemory) (hzero : ∀ a : Word, i ≤ a.toNat → m.memory.read a = 0) :
    m.Reaches (maxMemory - i) 0 m.registers m.memory := by
  have hplace (j : Nat) : m.pc + BitVec.ofNat 16 j = BitVec.ofNat 16 (i + j) := by
    rw [hpc, BitVec.ofNat_add]
  have hround : m.pc + BitVec.ofNat 16 (maxMemory - i) = 0 := by
    rw [hplace, Nat.add_sub_cancel' hi]
    rfl
  rw [← hround]
  refine reaches_zeros hlength hclear fun j hj => hzero _ ?_
  rw [hplace, BitVec.toNat_ofNat]
  unfold maxMemory at hj
  omega

end Machine

end AnnaToolchain
