import AnnaToolchain.Proofs.Machine.Loading
import AnnaToolchain.Proofs.Machine.Resume

/-! # Sessions

    A session is a row of operations on a new machine, in any order.  What
    holds between any two of them follows from three facts:

    * **`Keeps`**: an operation that is not about breakpoints leaves the
      number of cells and all breakpoints alone, and keeps the program
      counter inside memory;
    * **`Settled`**: a run always ends with a status that tells why it
      stopped, whatever the machine was before it;
    * **`Marked`**: an operation on breakpoints changes nothing else. -/

namespace AnnaToolchain

/-! ## Operations -/

/-- What can be done with a machine, other than to move its program counter and to renew its
    memory. -/
inductive Operation where
  | reset (input : List Word)
  | run (budget : Nat)
  | step
  | pushInput (value : Word)
  | load (image : Image)
  | setSink (sink : Sink)
  | write (address value : Word)
  | copyBlock (start : Word) (block : List Word)
  | setRegister (r : Register) (value : Word)
  | setBreakpoint (address : Word)
  | clearBreakpoint (address : Word)
  | toggleBreakpoint (address : Word)
  | clearBreakpoints

namespace Operation

/-- The machine after an operation. -/
def apply (op : Operation) (m : Machine) : Machine :=
  match op with
  | .reset input => m.reset input
  | .run budget => (m.run budget).1
  | .step => m.step.1
  | .pushInput value => m.pushInput value
  | .load image => m.load image
  | .setSink sink => m.setSink sink
  | .write address value => m.writeMemory address value
  | .copyBlock start block => { m with memory := m.memory.copyBlock start block }
  | .setRegister r value => m.setRegister r value
  | .setBreakpoint address => m.setBreakpoint address
  | .clearBreakpoint address => m.clearBreakpoint address
  | .toggleBreakpoint address => m.toggleBreakpoint address
  | .clearBreakpoints => m.clearBreakpoints

/-- Whether an operation is about breakpoints. -/
def marks : Operation → Bool
  | .setBreakpoint _ | .clearBreakpoint _ | .toggleBreakpoint _ | .clearBreakpoints => true
  | _ => false

end Operation

namespace Machine

/-- The machine after a session. -/
def after (m : Machine) (session : List Operation) : Machine :=
  session.foldl (fun m op => op.apply m) m

/-! ## What a run keeps -/

/-- The machine `m'` has the cells of `m` and its breakpoints, and stays inside them. -/
structure Keeps (m m' : Machine) : Prop where
  length : m'.memory.length = m.memory.length
  hasBreakpoint : ∀ address, m'.memory.hasBreakpoint address = m.memory.hasBreakpoint address
  pc_lt : m.pc.toNat < m.memory.length → m'.pc.toNat < m'.memory.length

theorem Keeps.refl (m : Machine) : Keeps m m :=
  ⟨rfl, fun _ => rfl, id⟩

theorem Keeps.trans {m m' m'' : Machine} (h : Keeps m m') (h' : Keeps m' m'') : Keeps m m'' where
  length := h'.length.trans h.length
  hasBreakpoint address := (h'.hasBreakpoint address).trans (h.hasBreakpoint address)
  pc_lt hpc := h'.pc_lt (h.pc_lt hpc)

/-- What an instruction leaves alone, a machine keeps that does not go on. -/
theorem Untouched.keeps {m m' : Machine} (h : Untouched m m') : Keeps m m' where
  length := h.length
  hasBreakpoint := h.hasBreakpoint
  pc_lt hpc := by rwa [h.pc, h.length]

/-- The next instruction is inside memory, wherever the last one sent the machine. -/
theorem Untouched.keeps_advance {m m' : Machine} (h : Untouched m m') (before : Registers)
    (next : Word) : Keeps m (m'.advance before next) where
  length := h.length
  hasBreakpoint := h.hasBreakpoint
  pc_lt _ := by
    show (m'.memory.wrap next).toNat < m'.memory.cells.size
    rw [Memory.toNat_wrap]
    exact m'.memory.index_lt next

theorem attempt_keeps (m : Machine) :
    (∀ m', m.attempt = .went m' → Keeps m m') ∧
      ∀ m' result, m.attempt = .ended m' result → Keeps m m' := by
  have hspec := attempt_spec m
  have hstart : Keeps m m.start := ⟨rfl, fun _ => rfl, id⟩
  generalize m.attempt = cycle at hspec
  refine ⟨?_, ?_⟩
  · rintro m' rfl
    cases hspec with
    | @went i m₁ next hd hh he hs =>
      have hu := execute_untouched m.start i
      rw [he] at hu
      exact hstart.trans (hu.keeps_advance _ _)
  · rintro m' result rfl
    cases hspec with
    | undecodable hd => exact hstart
    | haltWord hd hh => exact ⟨rfl, fun _ => rfl, id⟩
    | @faulted i _ fault hd hh he =>
      have hu := execute_untouched m.start i
      rw [he] at hu
      exact hstart.trans hu.keeps
    | @halted i m₁ next hd hh he hs =>
      have hu := execute_untouched m.start i
      rw [he] at hu
      exact hstart.trans (hu.keeps_advance _ _)

theorem Steps.keeps {k : Nat} {m m' : Machine} (h : Steps k m m') : Keeps m m' := by
  induction h with
  | refl m => exact .refl m
  | step _ hw _ ih => exact ((attempt_keeps _).1 _ hw).trans ih

theorem Ending.keeps {m : Machine} {left : Nat} {ran : Machine × Except Fault Stop}
    (h : Ending m left ran) : Keeps m ran.1 := by
  cases h with
  | exhausted _ => exact ⟨rfl, fun _ => rfl, id⟩
  | breakpoint _ _ => exact ⟨rfl, fun _ => rfl, id⟩
  | finished _ _ he => exact (attempt_keeps m).2 _ _ he

theorem conclude_keeps (ran : Machine × Except Fault Stop) : Keeps ran.1 (conclude ran).1 := by
  obtain ⟨m, fault | stop⟩ := ran
  · exact ⟨rfl, fun _ => rfl, id⟩
  · exact ⟨rfl, fun _ => rfl, id⟩

theorem run_keeps (m : Machine) (budget : Nat) : Keeps m (m.run budget).1 := by
  obtain ⟨k, m₁, -, hsteps, hend⟩ := runCycles_ending budget { m with changes := .none }
  have hstart : Keeps m { m with changes := .none } := ⟨rfl, fun _ => rfl, id⟩
  exact hstart.trans (hsteps.keeps.trans (hend.keeps.trans (conclude_keeps _)))

/-! ## How a run ends -/

/-- The status tells why the last run stopped. -/
structure Settled (m : Machine) : Prop where
  not_running : m.status ≠ .running
  paused_iff : m.status = .paused ↔
    m.lastStop = some .breakpoint ∨ m.lastStop = some .cyclesExceeded
  halted_iff : m.status = .halted ↔ m.lastStop = some .halted ∨ m.lastStop = none

theorem settled_of_paused {m : Machine} (hstatus : m.status = .paused)
    (hstop : m.lastStop = some .breakpoint ∨ m.lastStop = some .cyclesExceeded) : Settled m := by
  rcases hstop with hstop | hstop
  all_goals exact ⟨by simp [hstatus], by simp [hstatus, hstop], by simp [hstatus, hstop]⟩

theorem settled_of_halted {m : Machine} (hstatus : m.status = .halted)
    (hstop : m.lastStop = some .halted ∨ m.lastStop = none) : Settled m := by
  rcases hstop with hstop | hstop
  all_goals exact ⟨by simp [hstatus], by simp [hstatus, hstop], by simp [hstatus, hstop]⟩

/-- An instruction that ends a run without a fault has halted the machine. -/
theorem attempt_halted {m m' : Machine} {stop : Stop} (h : m.attempt = .ended m' (.ok stop)) :
    m'.status = .halted ∧ stop = .halted := by
  have hspec := attempt_spec m
  rw [h] at hspec
  cases hspec with
  | haltWord hd hh => exact ⟨rfl, rfl⟩
  | halted hd hh he hs => exact ⟨hs, rfl⟩

theorem Ending.settled {m : Machine} {left : Nat} {ran : Machine × Except Fault Stop}
    (h : Ending m left ran) : Settled (conclude ran).1 := by
  cases h with
  | exhausted _ => exact settled_of_paused rfl (.inr rfl)
  | breakpoint _ _ => exact settled_of_paused rfl (.inl rfl)
  | @finished m' result _ _ he =>
    obtain fault | stop := result
    · exact settled_of_halted rfl (.inr rfl)
    · obtain ⟨hstatus, rfl⟩ := attempt_halted he
      exact settled_of_halted hstatus (.inl rfl)

theorem run_settled (m : Machine) (budget : Nat) : Settled (m.run budget).1 := by
  obtain ⟨_, _, _, _, hend⟩ := runCycles_ending budget { m with changes := .none }
  exact hend.settled

/-! ## One operation -/

/-- The machine `m'` is `m` with other breakpoints. -/
structure Marked (m m' : Machine) : Prop where
  eq : ∃ memory, m' = { m with memory := memory }
  length : m'.memory.length = m.memory.length
  read : ∀ address, m'.memory.read address = m.memory.read address

theorem setBreakpoint_marked (m : Machine) (address : Word) (on : Bool) :
    Marked m { m with memory := m.memory.setBreakpoint address on } :=
  ⟨⟨_, rfl⟩, Memory.length_modify .., m.memory.read_setBreakpoint address on⟩

theorem apply_marked (m : Machine) (op : Operation) (h : op.marks = true) :
    Marked m (op.apply m) := by
  cases op with
  | setBreakpoint address => exact m.setBreakpoint_marked address true
  | clearBreakpoint address => exact m.setBreakpoint_marked address false
  | toggleBreakpoint address => exact m.setBreakpoint_marked address _
  | clearBreakpoints =>
    exact ⟨⟨_, rfl⟩, m.memory.length_clearBreakpoints, m.memory.read_clearBreakpoints⟩
  | _ => cases h

theorem apply_keeps (m : Machine) (op : Operation) (h : op.marks = false) :
    Keeps m (op.apply m) := by
  -- the memory that an operation writes has as many cells, and the program counter stays
  have hmemory (memory : Memory) (hlength : memory.length = m.memory.length)
      (hbreak : ∀ a, memory.hasBreakpoint a = m.memory.hasBreakpoint a) :
      Keeps m { m with memory := memory } :=
    ⟨hlength, hbreak, fun hpc => by rwa [hlength]⟩
  cases op with
  | reset input => exact ⟨rfl, fun _ => rfl, fun _ => m.memory.size_pos⟩
  | run budget => exact m.run_keeps budget
  | step => exact m.run_keeps 1
  | load image =>
    have hload : m.load image = { m with memory := m.memory.writeEntries image.toList } := by
      rw [← load_memory]
      rfl
    show Keeps m (m.load image)
    rw [hload]
    exact hmemory _ (m.memory.length_writeEntries _) (m.memory.hasBreakpoint_writeEntries _)
  | write address value =>
    exact hmemory _ (m.memory.length_write _ _) (m.memory.hasBreakpoint_write _ _)
  | copyBlock start block =>
    show Keeps m { m with memory := m.memory.copyBlock start block }
    rw [Memory.copyBlock_eq]
    exact hmemory _ (m.memory.length_writeEntries _) (m.memory.hasBreakpoint_writeEntries _)
  | pushInput _ | setSink _ | setRegister _ _ => exact ⟨rfl, fun _ => rfl, id⟩
  | _ => cases h

/-! ## Sessions -/

/-- Between two operations the program counter is inside memory, and the status tells why the last
    run stopped. -/
structure Resting (m : Machine) : Prop extends Settled m where
  pc_lt : m.pc.toNat < m.memory.length

theorem resting_new (config : Config) (random : RandomWords) : Resting (new config random) where
  toSettled := settled_of_halted rfl (.inr rfl)
  pc_lt := (new config random).memory.size_pos

/-- An operation leaves a machine that is at rest at rest. -/
theorem Resting.apply {m : Machine} (h : Resting m) (op : Operation) : Resting (op.apply m) := by
  by_cases hop : op.marks = true
  · obtain ⟨⟨memory, heq⟩, hlength, -⟩ := m.apply_marked op hop
    rw [heq] at hlength ⊢
    refine ⟨⟨h.not_running, h.paused_iff, h.halted_iff⟩, ?_⟩
    show m.pc.toNat < memory.length
    rw [hlength]
    exact h.pc_lt
  · have hop : op.marks = false := by simpa using hop
    refine ⟨?_, (m.apply_keeps op hop).pc_lt h.pc_lt⟩
    cases op with
    | reset input => exact settled_of_halted rfl (.inr rfl)
    | run budget => exact m.run_settled budget
    | step => exact m.run_settled 1
    | _ => exact ⟨h.not_running, h.paused_iff, h.halted_iff⟩

theorem length_apply (m : Machine) (op : Operation) :
    (op.apply m).memory.length = m.memory.length := by
  by_cases hop : op.marks = true
  · exact (m.apply_marked op hop).length
  · exact (m.apply_keeps op (by simpa using hop)).length

theorem Resting.after {m : Machine} (h : Resting m) (session : List Operation) :
    Resting (m.after session) := by
  induction session generalizing m with
  | nil => exact h
  | cons op session ih => exact ih (h.apply op)

theorem length_after (m : Machine) (session : List Operation) :
    (m.after session).memory.length = m.memory.length := by
  induction session generalizing m with
  | nil => rfl
  | cons op session ih => exact (ih (op.apply m)).trans (m.length_apply op)

/-- **Sessions.**  Whatever a machine was filled with, wherever its output goes and however it was
    used, `r0` reads zero, the program counter is inside memory, which has the size it was made
    with, and the status tells why the last run stopped.  A further run spends no more cycles than
    it is given, a further operation that is not about breakpoints moves none of them, and one that
    is changes no word. -/
theorem session_invariants (config : Config) (random : RandomWords) (session : List Operation) :
    let m := (new config random).after session
    m.register Register.zero = 0 ∧ Resting m ∧
      m.memory.length = clampMemory config.memLen ∧
      (∀ budget, m.cycles ≤ (m.run budget).1.cycles ∧
        (m.run budget).1.cycles ≤ m.cycles + budget) ∧
      (∀ op : Operation, op.marks = false → ∀ address,
        (op.apply m).memory.hasBreakpoint address = m.memory.hasBreakpoint address) ∧
      ∀ op : Operation, op.marks = true → ∀ address,
        (op.apply m).memory.read address = m.memory.read address := by
  intro m
  refine ⟨m.registers.get_zero, (resting_new config random).after session, ?_, ?_, ?_, ?_⟩
  · show ((new config random).after session).memory.length = _
    rw [length_after]
    exact Memory.length_fresh config.memLen config.fill random
  · intro budget
    obtain ⟨hge, hle⟩ := m.run_cycles budget
    exact ⟨hge, by omega⟩
  · intro op hop
    exact (m.apply_keeps op hop).hasBreakpoint
  · intro op hop
    exact (m.apply_marked op hop).read

end Machine

end AnnaToolchain
