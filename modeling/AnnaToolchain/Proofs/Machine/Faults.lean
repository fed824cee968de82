import AnnaToolchain.Proofs.Machine.Instructions
import AnnaToolchain.Proofs.Machine.Resume
import AnnaToolchain.Proofs.Outcome

/-! # Faults

    An instruction that fails has no effect: the machine is left as it was
    when the instruction was about to be executed (`attempt_fault`), though a
    sink that has refused a value knows that it was offered.  So the run up
    to a fault is a run of its own, and the machine can be helped and sent on
    from there.  A machine that has run out of input and is given
    more goes on as if it had had that value from the start (`run_fault`),
    because until then no instruction has looked so far ahead
    (`Steps.pushInput`). -/

namespace AnnaToolchain.Machine

/-! ## What can go wrong -/

/-- An instruction has every field that is read from it. -/
theorem exists_plainAction (m : Machine) (i : Instruction) : ∃ a, m.plainAction i = .ok a := by
  have hformat : i.format = i.opcode.format := rfl
  unfold plainAction effectiveAddress
  cases hop : i.opcode with
  | math op | input | output kind => exact ⟨_, rfl⟩
  | jalr =>
    have hrs1 : Field.isIn .rs1 i.format = true := by rw [hformat, hop]; rfl
    simp only [Instruction.rs1_eq_bits hrs1, ok_bind]
    exact ⟨_, rfl⟩
  | addi | shf | lw | sw =>
    have hrs1 : Field.isIn .rs1 i.format = true := by rw [hformat, hop]; rfl
    have himm6 : Field.isIn .imm6 i.format = true := by rw [hformat, hop]; rfl
    simp only [Instruction.rs1_eq_bits hrs1, Instruction.imm6_eq_bits himm6, ok_bind]
    exact ⟨_, rfl⟩
  | lli | lui =>
    have himm8 : Field.isIn .imm8 i.format = true := by rw [hformat, hop]; rfl
    simp only [Instruction.imm8_eq_bits himm8, ok_bind]
    exact ⟨_, rfl⟩
  | branch cond =>
    have himm8 : Field.isIn .imm8 i.format = true := by rw [hformat, hop]; rfl
    simp only [Instruction.imm8_eq_bits himm8, ok_bind]
    split
    · exact ⟨_, rfl⟩
    · exact ⟨_, rfl⟩

/-- The action of an instruction is known unless it divides by zero. -/
theorem action_fault {m : Machine} {i : Instruction} {fault : Fault}
    (h : m.action i = .error fault) : fault = .divideByZero := by
  have hplain := m.exists_plainAction i
  have hformat : i.format = i.opcode.format := rfl
  unfold action at h
  cases hop : i.opcode with
  | math op =>
    have hrs1 : Field.isIn .rs1 i.format = true := by rw [hformat, hop]; rfl
    have hrs2 : Field.isIn .rs2 i.format = true := by rw [hformat, hop]; rfl
    simp only [hop, Instruction.rs1_eq_bits hrs1, Instruction.rs2_eq_bits hrs2] at h
    split at h
    · cases h
    · exact (Except.error.inj h).symm
  | _ =>
    obtain ⟨a, ha⟩ := hplain
    simp [hop, ha, Except.mapError] at h

/-- What a fault leaves of a sink: the sink as it was, unless a value was refused. -/
inductive SinkAfter (before : Sink) : Fault → Sink → Prop where
  | same {fault : Fault} (h : fault ≠ .outputClosed) : SinkAfter before fault before
  /-- The value was offered. -/
  | refused {value : Output} {after : Sink} (h : before.emit value = (after, false)) :
      SinkAfter before .outputClosed after

/-- **A fault** changes nothing but the sink, and is never that an instruction lacks a field. -/
theorem attempt_fault {m m' : Machine} {fault : Fault}
    (h : m.attempt = .ended m' (.error fault)) :
    ∃ sink, m' = { m.start with sink := sink } ∧ SinkAfter m.sink fault sink ∧
      ∀ e, fault ≠ .fieldAccess e := by
  have hspec := attempt_spec m
  rw [h] at hspec
  cases hspec with
  | undecodable hd => exact ⟨m.sink, rfl, .same nofun, nofun⟩
  | @faulted i _ _ hd hh he =>
    unfold execute at he
    cases ha : m.start.action i with
    | error fault' =>
      simp only [ha, Prod.mk.injEq, Except.error.injEq] at he
      obtain ⟨rfl, rfl⟩ := he
      obtain rfl := action_fault ha
      exact ⟨m.sink, rfl, .same nofun, nofun⟩
    | ok a =>
      simp only [ha] at he
      rcases perform_fault he with ⟨rfl, rfl⟩ | ⟨rfl, value, sink, hs, rfl⟩
      · exact ⟨m.sink, rfl, .same nofun, nofun⟩
      · exact ⟨sink, rfl, .refused hs, nofun⟩

/-! ## More input -/

section

variable {m m' : Machine} {w : Word}

/-- An action that is done is done with more input as well, and leaves what is behind it. -/
theorem perform_pushInput {a : Action} {next : Word} (h : m.perform a = (m', .ok next)) (w : Word) :
    (m.pushInput w).perform a = (m'.pushInput w, .ok next) := by
  cases a with
  | input rd =>
    unfold perform at h ⊢
    cases hi : m.input with
    | nil => simp [hi] at h
    | cons value rest =>
      have hi' : (m.pushInput w).input = value :: (rest ++ [w]) := by
        simp [pushInput, hi]
      simp only [hi, Prod.mk.injEq, Except.ok.injEq] at h
      obtain ⟨rfl, rfl⟩ := h
      simp only [hi']
      rfl
  | print value =>
    rcases hs : m.sink.emit value with ⟨sink, taken⟩
    have hs' : (m.pushInput w).sink.emit value = (sink, taken) := hs
    cases taken with
    | true =>
      rw [perform_print_taken hs] at h
      cases h
      rw [perform_print_taken hs']
      rfl
    | false =>
      rw [perform_print_refused hs] at h
      cases h
  | _ =>
    cases h
    rfl

/-- A machine that goes on goes on with more input in the same way. -/
theorem attempt_pushInput (h : m.attempt = .went m') (w : Word) :
    (m.pushInput w).attempt = .went (m'.pushInput w) := by
  have hspec := attempt_spec m
  rw [h] at hspec
  cases hspec with
  | @went i m₁ next hd hh he hs =>
    have hd' : Instruction.decode ((m.pushInput w).memory.read (m.pushInput w).pc) = .ok i := hd
    have hs' : (m₁.pushInput w).status ≠ .halted := hs
    have he' : (m.pushInput w).start.execute i = (m₁.pushInput w, .ok next) := by
      -- what an instruction asks for does not depend on the input
      have haction : (m.pushInput w).start.action i = m.start.action i := rfl
      unfold execute at he ⊢
      rw [haction]
      cases ha : m.start.action i with
      | error fault => simp [ha] at he
      | ok a =>
        simp only [ha] at he
        exact perform_pushInput he w
    unfold attempt
    simp only [hd', hh, he', hs', Bool.false_eq_true, if_false]
    rfl

theorem Steps.pushInput {k : Nat} (h : Steps k m m') (w : Word) :
    Steps k (m.pushInput w) (m'.pushInput w) := by
  induction h with
  | refl m => exact .refl _
  | step hb hw _ ih => exact .step hb (attempt_pushInput hw w) ih

end

/-! ## Runs -/

/-- Where a run fails: after some steps, at an instruction that is left to be done. -/
theorem exists_steps_of_fault {m : Machine} {n : Nat} {fault : Fault}
    (h : (m.run n).2 = .error fault) :
    ∃ k m₁ sink, k < n ∧ Steps k { m with changes := .none } m₁ ∧
      SinkAfter m₁.sink fault sink ∧ (∀ e, fault ≠ .fieldAccess e) ∧
      (m.run n).1 = { m₁.start with sink := sink, status := .halted, lastStop := none } := by
  obtain ⟨k, m₁, hk, hsteps, hend⟩ := runCycles_ending n { m with changes := .none }
  have hr : (runCycles n { m with changes := .none }).2 = .error fault := by
    rw [← conclude_snd]
    exact h
  unfold run
  generalize runCycles n { m with changes := .none } = ran at hr hend ⊢
  cases hend with
  | exhausted hleft => cases hr
  | breakpoint hleft hb => cases hr
  | finished hleft hb he =>
    cases hr
    obtain ⟨sink, rfl, hsink, hfield⟩ := attempt_fault he
    exact ⟨k, m₁, sink, by omega, hsteps, hsink, hfield, rfl⟩

theorem Steps.pausedAt_eq {k : Nat} {m m' : Machine} (h : Steps k m m') :
    m'.pausedAt = if k = 0 then m.pausedAt else none := by
  cases k with
  | zero =>
    cases h
    rfl
  | succ k => exact h.pausedAt

/-- A machine that has failed where there is no breakpoint, and has been given a value, goes on as
    the one that had the value from the start. -/
theorem run_pushInput {k left : Nat} {m m₁ : Machine} (h : Steps k { m with changes := .none } m₁)
    (hclear : m₁.memory.hasBreakpoint m₁.pc = false) (w : Word) :
    let failed : Machine := { m₁.start with status := .halted, lastStop := none }
    let again := (failed.pushInput w).run (left + 1)
    (m.pushInput w).run (k + (left + 1))
      = ({ again.1 with changes := failed.changes.union again.1.changes }, again.2) := by
  intro failed again
  let waiting : Machine := { m₁.pushInput w with changes := .none, lastStop := none }
  -- the failed machine differs from the waiting one in what a cycle sets anew
  have hfailed : runCycles (left + 1) { failed.pushInput w with changes := .none }
      = runCycles (left + 1) waiting :=
    runCycles_paused waiting hclear .halted none left
  -- and the machine in the middle of the long run is the waiting one in another guise
  have hguise : m₁.pushInput w = (Guise.continued m₁.changes m₁.lastStop).apply waiting := by
    simp [Guise.apply, Guise.continued, waiting, pushInput]
  have hlong : runCycles (k + (left + 1)) { m.pushInput w with changes := .none }
      = ((Guise.continued m₁.changes m₁.lastStop).apply (runCycles (left + 1) waiting).1,
          (runCycles (left + 1) waiting).2) := by
    have hsteps := (h.pushInput w).runCycles (left + 1)
    rw [← runCycles_apply _ (fun _ _ => rfl), ← hguise]
    exact hsteps
  show (m.pushInput w).run (k + (left + 1))
    = ({ ((failed.pushInput w).run (left + 1)).1 with
          changes := m₁.changes.union ((failed.pushInput w).run (left + 1)).1.changes },
        ((failed.pushInput w).run (left + 1)).2)
  unfold run
  rw [hlong, conclude_apply, hfailed]
  rfl

/-- **Faults.**  When a run fails, the instruction at fault has no effect: the machine is the one
    that a run of just the cycles before it leaves, which ends for want of cycles, but it is halted
    and not paused, and a value may have been offered to the sink and refused.  No instruction
    lacks a field.  And if it was input that was missing, where no
    breakpoint is in the way, the machine can be given a value and run on with the cycles left; it
    comes to the same end as if that value had been the last of its input from the start. -/
theorem run_fault (m : Machine) (n : Nat) (fault : Fault) (h : (m.run n).2 = .error fault) :
    let failed := (m.run n).1
    ∃ k sink, k < n ∧ failed.cycles = m.cycles + k ∧ SinkAfter sink fault failed.sink ∧
      m.run k = ({ failed with
          sink := sink
          status := .paused
          lastStop := some .cyclesExceeded
          pausedAt := if k = 0 then m.pausedAt else none }, .ok .cyclesExceeded) ∧
      (∀ e, fault ≠ .fieldAccess e) ∧ failed.status = .halted ∧ failed.lastStop = none ∧
      (fault = .inputExhausted → failed.memory.hasBreakpoint failed.pc = false → ∀ w,
        let again := (failed.pushInput w).run (n - k)
        (m.pushInput w).run n
          = ({ again.1 with changes := failed.changes.union again.1.changes }, again.2)) := by
  obtain ⟨k, m₁, sink, hk, hsteps, hsink, hfield, hfailed⟩ := exists_steps_of_fault h
  rw [hfailed]
  refine ⟨k, m₁.sink, hk, hsteps.cycles, hsink, ?_, hfield, rfl, rfl, ?_⟩
  · rw [hsteps.run_eq, ← hsteps.pausedAt_eq]
    rfl
  · rintro rfl hclear w
    obtain ⟨left, hleft⟩ : ∃ left, n - k = left + 1 := ⟨n - k - 1, by omega⟩
    have hn : n = k + (left + 1) := by omega
    rw [hleft, hn]
    cases hsink with
    | same => exact run_pushInput hsteps hclear w

/-- A machine of two cells that adds one to `r1` and reads `r2`, for ever. -/
def reader : Machine :=
  ((Machine.new { memLen := 2 }).writeMemory 0 0x3241).writeMemory 1 0x2400

theorem run_fault_reader :
    (reader.run 5).2 = .error .inputExhausted ∧
      (reader.run 5).1.memory.hasBreakpoint (reader.run 5).1.pc = false ∧
      (reader.run 5).1.cycles = 1 ∧ (reader.run 1).2 = .ok .cyclesExceeded ∧
      ((reader.pushInput 7).run 5).2 = (((reader.run 5).1.pushInput 7).run 4).2 := by
  have hfault : (reader.run 5).2 = .error .inputExhausted := by rfl
  have hclear : (reader.run 5).1.memory.hasBreakpoint (reader.run 5).1.pc = false := by rfl
  have hone : (reader.run 5).1.cycles = 1 := by rfl
  have hzero : reader.cycles = 0 := rfl
  obtain ⟨k, sink, -, hcycles, -, hrun, -, -, -, hretry⟩ := run_fault reader 5 .inputExhausted hfault
  obtain rfl : k = 1 := by omega
  exact ⟨hfault, hclear, hone, by rw [hrun], by rw [hretry rfl hclear 7]⟩

end AnnaToolchain.Machine
