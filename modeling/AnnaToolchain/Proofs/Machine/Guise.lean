import AnnaToolchain.Proofs.Machine.Changes
import AnnaToolchain.Proofs.Machine.Cycle

/-! # What no instruction looks at

    A machine carries annotations: the breakpoints, the record of changes,
    and how the last run ended.  Instructions keep them up to date and never
    read them, so a machine in another guise does the same
    (`attempt_apply`).  Only the check for a breakpoint before each cycle
    looks at one of them. -/

namespace AnnaToolchain

/-! ## Memory without breakpoints -/

namespace Memory

theorem ext_cells {a b : Memory} (h : a.cells = b.cells) : a = b := by
  cases a; cases b; cases h; rfl

theorem index_congr {a b : Memory} (h : a.length = b.length) (address : Word) :
    a.index address = b.index address := by
  unfold length at h
  unfold index
  rw [h]

theorem wrap_congr {a b : Memory} (h : a.length = b.length) (address : Word) :
    a.wrap address = b.wrap address := by
  unfold wrap
  rw [index_congr h]

theorem readChars_congr {a b : Memory} (h : ∀ address, a.read address = b.read address)
    (address : Word) (acc : List Char) (count : Nat) :
    a.readChars address acc count = b.readChars address acc count := by
  induction count generalizing address acc with
  | zero => rfl
  | succ count ih =>
    unfold readChars
    simp only [h, ih]

theorem readText_congr {a b : Memory} (hl : a.length = b.length)
    (h : ∀ address, a.read address = b.read address) (address : Word) :
    a.readText address = b.readText address := by
  unfold readText
  rw [readChars_congr h, hl]

@[simp] theorem length_clearBreakpoints (m : Memory) : m.clearBreakpoints.length = m.length := by
  simp [clearBreakpoints, length]

theorem cell_clearBreakpoints (m : Memory) (address : Word) :
    m.clearBreakpoints.cell address = (m.cell address).setBreakpoint false := by
  simp [cell, clearBreakpoints, index]

@[simp] theorem read_clearBreakpoints (m : Memory) (address : Word) :
    m.clearBreakpoints.read address = m.read address := by
  unfold read
  rw [cell_clearBreakpoints, Cell.data_setBreakpoint]

@[simp] theorem hasBreakpoint_clearBreakpoints (m : Memory) (address : Word) :
    m.clearBreakpoints.hasBreakpoint address = false := by
  unfold hasBreakpoint
  rw [cell_clearBreakpoints, Cell.breakpoint_setBreakpoint]

theorem clearBreakpoints_write (m : Memory) (address value : Word) :
    (m.write address value).clearBreakpoints = m.clearBreakpoints.write address value := by
  -- cell by cell, the one written and the others
  apply ext_cells
  apply Array.ext
  · simp [clearBreakpoints, write, modify]
  · intro i h₁ h₂
    by_cases h : address.toNat % m.cells.size = i <;>
      simp [clearBreakpoints, write, modify, index, Array.getElem_modify, h,
        Cell.setBreakpoint_setData]

end Memory

/-! ## Guises -/

/-- A way to annotate a machine otherwise, which goes along with what instructions do. -/
structure Guise where
  memory : Memory → Memory
  changes : Changes → Changes
  lastStop : Option Stop → Option Stop
  length_memory : ∀ m, (memory m).length = m.length
  read_memory : ∀ m address, (memory m).read address = m.read address
  memory_write : ∀ m address value, memory (m.write address value) = (memory m).write address value
  changes_addRegisters : ∀ c before after,
    changes (c.addRegisters before after) = (changes c).addRegisters before after
  changes_addAccess : ∀ c address access,
    changes (c.addAccess address access) = (changes c).addAccess address access

namespace Guise

/-- The machine in another guise. -/
def apply (d : Guise) (m : Machine) : Machine :=
  { m with
    memory := d.memory m.memory
    changes := d.changes m.changes
    lastStop := d.lastStop m.lastStop }

/-- A run continued: something had changed before it began. -/
def continued (before : Changes) (stop : Option Stop) : Guise where
  memory := id
  changes := before.union
  lastStop := fun _ => stop
  length_memory _ := rfl
  read_memory _ _ := rfl
  memory_write _ _ _ := rfl
  changes_addRegisters := before.union_addRegisters
  changes_addAccess := before.union_addAccess

/-- A run continued without its breakpoints. -/
def unwatched (before : Changes) (stop : Option Stop) : Guise where
  memory := Memory.clearBreakpoints
  changes := before.union
  lastStop := fun _ => stop
  length_memory := Memory.length_clearBreakpoints
  read_memory := Memory.read_clearBreakpoints
  memory_write := Memory.clearBreakpoints_write
  changes_addRegisters := before.union_addRegisters
  changes_addAccess := before.union_addAccess

end Guise

namespace Machine

variable (d : Guise) (m : Machine)

theorem effectiveAddress_apply (i : Instruction) :
    (d.apply m).effectiveAddress i = m.effectiveAddress i := by
  unfold effectiveAddress
  simp only [register, Guise.apply, Memory.wrap_congr (d.length_memory m.memory)]

theorem plainAction_apply (i : Instruction) : (d.apply m).plainAction i = m.plainAction i := by
  have htext := Memory.readText_congr (d.length_memory m.memory) (d.read_memory m.memory)
  have hout : ∀ kind value, (d.apply m).outputOf kind value = m.outputOf kind value := by
    intro kind value
    unfold outputOf
    simp only [Guise.apply, htext]
  -- addresses and texts are all that is taken from memory here
  unfold plainAction
  simp only [effectiveAddress_apply, hout]
  rfl

theorem action_apply (i : Instruction) : (d.apply m).action i = m.action i := by
  unfold action
  simp only [plainAction_apply]
  rfl

theorem perform_apply (a : Action) :
    (d.apply m).perform a = (d.apply (m.perform a).1, (m.perform a).2) := by
  cases a with
  | input rd =>
    have hi : (d.apply m).input = m.input := rfl
    simp only [perform, hi]
    cases hm : m.input with
    | nil => rfl
    | cons value rest => rfl
  | print value =>
    rcases hs : m.sink.emit value with ⟨sink, taken⟩
    have hs' : (d.apply m).sink.emit value = (sink, taken) := hs
    cases taken with
    | true => rw [perform_print_taken hs, perform_print_taken hs']; rfl
    | false => rw [perform_print_refused hs, perform_print_refused hs']; rfl
  | load rd address =>
    simp only [perform, Guise.apply, setRegister, d.read_memory, d.changes_addAccess]
  | store address value =>
    simp only [perform, Guise.apply, d.read_memory, d.changes_addAccess, d.memory_write]
  | _ => rfl

theorem execute_apply (i : Instruction) :
    (d.apply m).execute i = (d.apply (m.execute i).1, (m.execute i).2) := by
  unfold execute
  rw [action_apply]
  cases m.action i with
  | ok a => exact perform_apply d m a
  | error fault => rfl

theorem advance_apply (before : Registers) (next : Word) :
    (d.apply m).advance before next = d.apply (m.advance before next) := by
  simp only [advance, Guise.apply, d.changes_addRegisters,
    Memory.wrap_congr (d.length_memory m.memory)]

/-- A machine in another guise does the same. -/
theorem attempt_apply : (d.apply m).attempt = m.attempt.map d.apply := by
  have hread : (d.apply m).memory.read (d.apply m).pc = m.memory.read m.pc := d.read_memory _ _
  have hstart : (d.apply m).start = d.apply m.start := rfl
  unfold attempt
  rw [hread]
  cases Instruction.decode (m.memory.read m.pc) with
  | error e => rfl
  | ok i =>
    simp only [hstart, execute_apply]
    by_cases hh : i.isHalt = true
    · simp only [hh, if_true]
      rfl
    · rcases m.start.execute i with ⟨m₁, fault | next⟩
      · simp only [hh, Bool.false_eq_true, if_false]
        rfl
      · simp only [hh, Bool.false_eq_true, if_false, advance_apply]
        have hs : (d.apply m₁).status = m₁.status := rfl
        have hr : (d.apply m).registers = m.registers := rfl
        rw [hs, hr]
        by_cases hm : m₁.status = .halted
        · simp only [hm, if_true]
          rfl
        · simp only [hm, if_false]
          rfl

theorem conclude_apply (ran : Machine × Except Fault Stop) :
    conclude (d.apply ran.1, ran.2) =
      ({ (conclude ran).1 with
          memory := d.memory (conclude ran).1.memory
          changes := d.changes (conclude ran).1.changes },
        (conclude ran).2) := by
  obtain ⟨m', fault | stop⟩ := ran
  · rfl
  · rfl

/-- A whole run does the same, if the breakpoints stay where they are. -/
theorem runCycles_apply
    (hd : ∀ memory address, (d.memory memory).hasBreakpoint address = memory.hasBreakpoint address)
    (n : Nat) (m : Machine) :
    runCycles n (d.apply m) = (d.apply (runCycles n m).1, (runCycles n m).2) := by
  induction n generalizing m with
  | zero => rfl
  | succ n ih =>
    -- the only place where a run looks at breakpoints
    have hb : (d.apply m).atBreakpoint = m.atBreakpoint := by
      unfold atBreakpoint
      simp only [Guise.apply, hd]
    rw [runCycles_succ, runCycles_succ, hb, attempt_apply]
    by_cases h : m.atBreakpoint = true
    · simp only [h, if_true]
      rfl
    · simp only [h, Bool.false_eq_true, if_false]
      cases m.attempt with
      | ended m' result => rfl
      | went m' => exact ih m'

/-- Steps are steps in a guise without breakpoints. -/
theorem Steps.apply (hd : ∀ memory address, (d.memory memory).hasBreakpoint address = false)
    {k : Nat} {m m' : Machine} (h : Steps k m m') : Steps k (d.apply m) (d.apply m') := by
  induction h with
  | refl m => exact .refl _
  | @step k m m₁ m' hb hw _ ih =>
    have hb' : (d.apply m).atBreakpoint = false := by
      simp [atBreakpoint, Guise.apply, hd]
    refine .step hb' ?_ ih
    rw [attempt_apply, hw]
    rfl

end Machine

end AnnaToolchain
