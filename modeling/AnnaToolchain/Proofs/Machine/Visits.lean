import AnnaToolchain.Proofs.Machine.Resume

/-! # Visits to a breakpoint

    A machine that has stopped at a breakpoint is paused there, and the next
    call that gives it a cycle attempts the instruction instead of stopping
    again.

    What comes of the attempt decides whether the visit is over.  An
    instruction that is executed spends a cycle.  One that fails, and the
    halt word, spend none, but the machine is no longer paused: so the call
    after that stops at the same breakpoint once more
    (`Machine.breakpoint_visits`). -/

namespace AnnaToolchain

/-! ## Calls -/

/-- A call that goes on with a machine, as it is or with more input. -/
inductive Call where
  | run (budget : Nat)
  | step
  | pushInput (value : Word)

namespace Call

/-- The cycles that a call gives the machine. -/
def budget : Call → Nat
  | .run budget => budget
  | .step => 1
  | .pushInput _ => 0

/-- A call that gives no cycles. -/
def IsIdle (c : Call) : Prop :=
  c.budget = 0

end Call

namespace Machine

/-- The machine after a call, and what the call returns if it is a run. -/
def call (m : Machine) : Call → Machine × Option (Except Fault Stop)
  | .run budget => ((m.run budget).1, some (m.run budget).2)
  | .step => (m.step.1, some m.step.2)
  | .pushInput value => (m.pushInput value, none)

/-- The machine after some calls. -/
def afterCalls (m : Machine) (calls : List Call) : Machine :=
  calls.foldl (fun m c => (m.call c).1) m

/-- A run that first attempts the instruction at the program counter, even at a breakpoint, and has
    `budget` cycles after that. -/
def runPast (m : Machine) (budget : Nat) : Machine × Except Fault Stop :=
  conclude <|
    match attempt { m with changes := .none } with
    | .ended m' result => (m', result)
    | .went m' => runCycles budget m'

/-- The call attempts the instruction at the program counter. -/
def Attempts (m : Machine) (c : Call) : Prop :=
  ∃ budget, c.budget = budget + 1 ∧ m.call c = ((m.runPast budget).1, some (m.runPast budget).2)

/-- The call executes no instruction, for the first one fails or is the halt word. -/
structure GivesUp (m : Machine) (c : Call) : Prop where
  pos : 0 < c.budget
  cycles : (m.call c).1.cycles = m.cycles
  result : (m.call c).2 = some (.ok .halted) ∨ ∃ fault, (m.call c).2 = some (.error fault)

theorem call_of_pos (m : Machine) {c : Call} (h : 0 < c.budget) :
    m.call c = ((m.run c.budget).1, some (m.run c.budget).2) := by
  cases c with
  | run budget => rfl
  | step => rfl
  | pushInput value => cases h

theorem cycles_call (m : Machine) (c : Call) : m.cycles ≤ (m.call c).1.cycles := by
  cases c with
  | run budget => exact (m.run_cycles budget).1
  | step => exact (m.run_cycles 1).1
  | pushInput value => exact Nat.le_refl _

theorem cycles_afterCalls (m : Machine) (calls : List Call) :
    m.cycles ≤ (m.afterCalls calls).cycles := by
  induction calls generalizing m with
  | nil => exact Nat.le_refl _
  | cons c calls ih => exact Nat.le_trans (m.cycles_call c) (ih (m.call c).1)

theorem afterCalls_append (m : Machine) (calls calls' : List Call) :
    m.afterCalls (calls ++ calls') = (m.afterCalls calls).afterCalls calls' :=
  List.foldl_append

/-! ## Calls without cycles -/

/-- The machine `m'` stands where `m` does. -/
structure StandsWith (m m' : Machine) : Prop where
  pc : m'.pc = m.pc
  cycles : m'.cycles = m.cycles
  pausedAt : m'.pausedAt = m.pausedAt
  memory : m'.memory = m.memory

theorem StandsWith.atBreakpoint {m m' : Machine} (h : StandsWith m m') :
    m'.atBreakpoint = m.atBreakpoint := by
  unfold Machine.atBreakpoint
  rw [h.pc, h.pausedAt, h.memory]

theorem standsWith_call (m : Machine) {c : Call} (h : c.IsIdle) : StandsWith m (m.call c).1 := by
  cases c with
  | run budget =>
    obtain rfl : budget = 0 := h
    exact ⟨rfl, rfl, rfl, rfl⟩
  | step => cases h
  | pushInput value => exact ⟨rfl, rfl, rfl, rfl⟩

theorem standsWith_afterCalls (m : Machine) {idle : List Call} (h : ∀ c ∈ idle, c.IsIdle) :
    StandsWith m (m.afterCalls idle) := by
  induction idle generalizing m with
  | nil => exact ⟨rfl, rfl, rfl, rfl⟩
  | cons c idle ih =>
    obtain ⟨hc, hidle⟩ := List.forall_mem_cons.mp h
    have hfirst := m.standsWith_call hc
    have hrest := ih (m.call c).1 hidle
    exact ⟨hrest.pc.trans hfirst.pc, hrest.cycles.trans hfirst.cycles,
      hrest.pausedAt.trans hfirst.pausedAt, hrest.memory.trans hfirst.memory⟩

/-- A call that stops at a breakpoint has given a cycle. -/
theorem pos_of_stops {m : Machine} {c : Call} (h : (m.call c).2 = some (.ok .breakpoint)) :
    0 < c.budget := by
  cases c with
  | run budget =>
    cases budget with
    | zero => cases h
    | succ budget => exact Nat.succ_pos budget
  | step => exact Nat.one_pos
  | pushInput value => cases h

/-! ## Runs that begin at a breakpoint -/

/-- The machine is paused at the breakpoint it stands at. -/
structure Paused (m : Machine) : Prop where
  pausedAt : m.pausedAt = some m.pc
  hasBreakpoint : m.memory.hasBreakpoint m.pc = true

theorem Paused.atBreakpoint {m : Machine} (h : m.Paused) : m.atBreakpoint = false := by
  simp [Machine.atBreakpoint, h.pausedAt]

theorem paused_of_stops {m : Machine} {c : Call} (h : (m.call c).2 = some (.ok .breakpoint)) :
    (m.call c).1.Paused := by
  have hcall := m.call_of_pos (pos_of_stops h)
  rw [hcall] at h ⊢
  have hresult : (runCycles c.budget { m with changes := .none }).2 = .ok .breakpoint := by
    rw [← conclude_snd]
    exact Option.some.inj h
  obtain ⟨k, m₁, -, -, hend⟩ := runCycles_ending c.budget { m with changes := .none }
  unfold run
  generalize runCycles c.budget { m with changes := .none } = ran at hresult hend ⊢
  cases hend with
  | exhausted _ => cases hresult
  | finished _ _ he => cases (attempt_ended he).result_ne _ hresult
  | breakpoint _ hb =>
    refine ⟨rfl, ?_⟩
    unfold Machine.atBreakpoint at hb
    exact (Bool.and_eq_true _ _ ▸ hb).1

/-- Where the machine does not stop, it attempts an instruction. -/
theorem run_succ_eq_runPast {m : Machine} (h : m.atBreakpoint = false) (budget : Nat) :
    m.run (budget + 1) = m.runPast budget := by
  have hb : ¬ atBreakpoint { m with changes := .none } = true := by
    rw [show atBreakpoint { m with changes := .none } = m.atBreakpoint from rfl, h]
    exact Bool.false_ne_true
  unfold run
  rw [runCycles_succ, if_neg hb]
  rfl

/-- Nothing was executed: the machine stands where it did, but is not paused. -/
structure Abandoned (m : Machine) (ran : Machine × Except Fault Stop) : Prop where
  pc : ran.1.pc = m.pc
  cycles : ran.1.cycles = m.cycles
  memory : ran.1.memory = m.memory
  pausedAt : ran.1.pausedAt = none
  result : ran.2 = .ok .halted ∨ ∃ fault, ran.2 = .error fault

/-- An attempt spends a cycle, or the instruction is abandoned. -/
theorem runPast_cases (m : Machine) (budget : Nat) :
    m.cycles < (m.runPast budget).1.cycles ∨ Abandoned m (m.runPast budget) := by
  let cleared : Machine := { m with changes := .none }
  have hspec := attempt_spec cleared
  show m.cycles < (conclude _).1.cycles ∨ Abandoned m (conclude _)
  rw [conclude_cycles]
  cases hattempt : cleared.attempt with
  | went m' =>
    have hone : m'.cycles = m.cycles + 1 := (attempt_went hattempt).cycles
    have hlt : m.cycles < m'.cycles := by omega
    exact .inl (Nat.lt_of_lt_of_le hlt (runCycles_cycles budget m').1)
  | ended m' result =>
    rw [hattempt] at hspec
    cases hspec with
    | undecodable hd => exact .inr ⟨rfl, rfl, rfl, rfl, .inr ⟨_, rfl⟩⟩
    | haltWord hd hh => exact .inr ⟨rfl, rfl, rfl, rfl, .inl rfl⟩
    | faulted hd hh he =>
      obtain ⟨sink, rfl⟩ := execute_fault he
      exact .inr ⟨rfl, rfl, rfl, rfl, .inr ⟨_, rfl⟩⟩
    | @halted i m₁ next hd hh he hs =>
      -- a program that halts itself has executed an instruction
      have hu := execute_untouched cleared.start i
      rw [he] at hu
      have hone : m₁.cycles = m.cycles := hu.cycles
      exact .inl (Nat.lt_succ_of_le (Nat.le_of_eq hone.symm))

/-! ## Visits -/

/-- Some calls are idle, or there is a first one that is not. -/
theorem idle_or_exists_pos (calls : List Call) :
    (∀ c ∈ calls, c.IsIdle) ∨ ∃ idle next later, calls = idle ++ next :: later ∧
      (∀ c ∈ idle, Call.IsIdle c) ∧ 0 < next.budget := by
  induction calls with
  | nil => exact .inl (List.forall_mem_nil _)
  | cons c calls ih =>
    rcases Nat.eq_zero_or_pos c.budget with hc | hc
    · rcases ih with hidle | ⟨idle, next, later, rfl, hidle, hnext⟩
      · exact .inl (List.forall_mem_cons.mpr ⟨hc, hidle⟩)
      · exact .inr ⟨c :: idle, next, later, rfl, List.forall_mem_cons.mpr ⟨hc, hidle⟩, hnext⟩
    · exact .inr ⟨[], c, calls, rfl, List.forall_mem_nil _, hc⟩

section

variable {m : Machine} {idle : List Call} {c : Call}

/-- A machine that is paused at a breakpoint attempts the instruction there. -/
theorem Paused.attempts (h : m.Paused) (hidle : ∀ c ∈ idle, c.IsIdle) (hpos : 0 < c.budget) :
    (m.afterCalls idle).Attempts c := by
  obtain ⟨budget, hbudget⟩ : ∃ budget, c.budget = budget + 1 := ⟨c.budget - 1, by omega⟩
  have hb : (m.afterCalls idle).atBreakpoint = false := by
    rw [(m.standsWith_afterCalls hidle).atBreakpoint, h.atBreakpoint]
  refine ⟨budget, hbudget, ?_⟩
  rw [call_of_pos _ hpos, hbudget, run_succ_eq_runPast hb]

/-- It executes it, or it abandons it. -/
theorem Paused.call_cases (h : m.Paused) (hidle : ∀ c ∈ idle, c.IsIdle) (hpos : 0 < c.budget) :
    m.cycles < ((m.afterCalls idle).call c).1.cycles ∨
      ∃ ran, (m.afterCalls idle).call c = (ran.1, some ran.2) ∧ Abandoned m ran := by
  obtain ⟨budget, -, hcall⟩ := h.attempts hidle hpos
  have hstands := m.standsWith_afterCalls hidle
  rw [hcall]
  rcases (m.afterCalls idle).runPast_cases budget with hcycles | habandoned
  · rw [hstands.cycles] at hcycles
    exact .inl hcycles
  · exact .inr ⟨_, rfl, habandoned.pc.trans hstands.pc, habandoned.cycles.trans hstands.cycles,
      habandoned.memory.trans hstands.memory, habandoned.pausedAt, habandoned.result⟩

/-- A machine that stands at a breakpoint and is not paused stops there. -/
theorem call_of_atBreakpoint (h : m.atBreakpoint = true) (hpos : 0 < c.budget) :
    (m.call c).2 = some (.ok .breakpoint) ∧ (m.call c).1.pc = m.pc ∧
      (m.call c).1.cycles = m.cycles := by
  obtain ⟨budget, hbudget⟩ : ∃ budget, c.budget = budget + 1 := ⟨c.budget - 1, by omega⟩
  have hrun : m.run (budget + 1)
      = conclude (pauseHere { m with changes := .none }, .ok .breakpoint) := by
    unfold run
    rw [runCycles_succ]
    exact congrArg conclude (if_pos h)
  rw [call_of_pos m hpos, hbudget, hrun]
  exact ⟨rfl, rfl, rfl⟩

/-- Between two stops an instruction is executed, unless it is given up. -/
theorem Paused.stops_again (h : m.Paused) {between : List Call}
    (hstops : ((m.afterCalls between).call c).2 = some (.ok .breakpoint)) :
    m.cycles < ((m.afterCalls between).call c).1.cycles ∨
      ∃ idle next later, between = idle ++ next :: later ∧ (∀ c ∈ idle, Call.IsIdle c) ∧
        (m.afterCalls idle).GivesUp next := by
  rcases idle_or_exists_pos between with hidle | ⟨idle, next, later, rfl, hidle, hnext⟩
  · rcases h.call_cases hidle (pos_of_stops hstops) with hcycles | ⟨ran, hcall, habandoned⟩
    · exact .inl hcycles
    · -- an attempt that comes to nothing does not stop at a breakpoint
      rw [hcall] at hstops
      have hresult := Option.some.inj hstops
      rcases habandoned.result with hhalted | ⟨fault, hfault⟩
      · rw [hhalted] at hresult
        cases hresult
      · rw [hfault] at hresult
        cases hresult
  · rcases h.call_cases hidle hnext with hcycles | ⟨ran, hcall, habandoned⟩
    · left
      rw [afterCalls_append]
      have hlater := cycles_afterCalls ((m.afterCalls idle).call next).1 later
      have hlast := cycles_call (((m.afterCalls idle).call next).1.afterCalls later) c
      exact Nat.lt_of_lt_of_le hcycles (Nat.le_trans hlater hlast)
    · refine .inr ⟨idle, next, later, rfl, hidle, hnext, ?_, ?_⟩
      · rw [hcall, (m.standsWith_afterCalls hidle).cycles]
        exact habandoned.cycles
      · rw [hcall]
        rcases habandoned.result with hhalted | ⟨fault, hfault⟩
        · exact .inl (congrArg some hhalted)
        · exact .inr ⟨fault, congrArg some hfault⟩

/-- What was given up is stopped at once more. -/
theorem Paused.stops_after_giving_up (h : m.Paused) {next again : Call} {idle' : List Call}
    (hidle : ∀ c ∈ idle, c.IsIdle) (hgives : (m.afterCalls idle).GivesUp next)
    (hidle' : ∀ c ∈ idle', c.IsIdle) (hpos : 0 < again.budget) :
    let stopped := (m.afterCalls (idle ++ next :: idle')).call again
    stopped.2 = some (.ok .breakpoint) ∧ stopped.1.pc = m.pc ∧ stopped.1.cycles = m.cycles := by
  rcases h.call_cases hidle hgives.pos with hcycles | ⟨ran, hcall, habandoned⟩
  · rw [hgives.cycles, (m.standsWith_afterCalls hidle).cycles] at hcycles
    exact absurd hcycles (Nat.lt_irrefl _)
  · have hafter : m.afterCalls (idle ++ next :: idle') = ran.1.afterCalls idle' := by
      rw [afterCalls_append]
      exact congrArg (afterCalls · idle') (congrArg Prod.fst hcall)
    have hstands := ran.1.standsWith_afterCalls hidle'
    have hb : (ran.1.afterCalls idle').atBreakpoint = true := by
      rw [hstands.atBreakpoint]
      simp [Machine.atBreakpoint, habandoned.memory, habandoned.pc, habandoned.pausedAt,
        h.hasBreakpoint]
    obtain ⟨hresult, hpc, hcycles⟩ := call_of_atBreakpoint hb hpos
    rw [hafter]
    exact ⟨hresult, hpc.trans (hstands.pc.trans habandoned.pc),
      hcycles.trans (hstands.cycles.trans habandoned.cycles)⟩

end

/-- **Visits.**  After a stop at a breakpoint, the next call that gives a cycle attempts the
    instruction there.  Before another call stops at a breakpoint, a cycle is spent, unless that
    attempt fails or comes to the halt word.  Then nothing is executed, and the next call that
    gives a cycle stops at the same breakpoint again. -/
theorem breakpoint_visits (m : Machine) (c : Call) (h : (m.call c).2 = some (.ok .breakpoint)) :
    let stopped := (m.call c).1
    (∀ idle next, (∀ c ∈ idle, Call.IsIdle c) → 0 < next.budget →
      (stopped.afterCalls idle).pc = stopped.pc ∧ (stopped.afterCalls idle).Attempts next) ∧
    (∀ between again, ((stopped.afterCalls between).call again).2 = some (.ok .breakpoint) →
      stopped.cycles < ((stopped.afterCalls between).call again).1.cycles ∨
        ∃ idle next later, between = idle ++ next :: later ∧ (∀ c ∈ idle, Call.IsIdle c) ∧
          (stopped.afterCalls idle).GivesUp next) ∧
    ∀ idle next idle' again, (∀ c ∈ idle, Call.IsIdle c) →
      (stopped.afterCalls idle).GivesUp next → (∀ c ∈ idle', Call.IsIdle c) → 0 < again.budget →
      let second := (stopped.afterCalls (idle ++ next :: idle')).call again
      second.2 = some (.ok .breakpoint) ∧ second.1.pc = stopped.pc ∧
        second.1.cycles = stopped.cycles := by
  intro stopped
  have hpaused : stopped.Paused := paused_of_stops h
  refine ⟨?_, ?_, ?_⟩
  · intro idle next hidle hpos
    exact ⟨(stopped.standsWith_afterCalls hidle).pc, hpaused.attempts hidle hpos⟩
  · intro between again hstops
    exact hpaused.stops_again hstops
  · intro idle next idle' again hidle hgives hidle' hpos
    exact hpaused.stops_after_giving_up hidle hgives hidle' hpos

/-- A machine of one cell that reads `r1` for ever, with a breakpoint. -/
def asker : Machine :=
  ((Machine.new { memLen := 1 }).writeMemory 0 0x2200).setBreakpoint 0

/-- Without input the machine gives up, and with it stops again before it reads. -/
theorem breakpoint_visits_asker :
    (asker.call (.run 5)).2 = some (.ok .breakpoint) ∧
      let stopped := (asker.call (.run 5)).1
      stopped.GivesUp (.run 5) ∧
        ((stopped.afterCalls [.run 5, .pushInput 7]).call (.run 5)).2 = some (.ok .breakpoint) ∧
        ((stopped.afterCalls [.run 5, .pushInput 7]).call (.run 5)).1.cycles = stopped.cycles := by
  have hstops : (asker.call (.run 5)).2 = some (.ok .breakpoint) := by rfl
  have hgives : (asker.call (.run 5)).1.GivesUp (.run 5) :=
    ⟨by decide, by rfl, .inr ⟨.inputExhausted, by rfl⟩⟩
  have hidle : ∀ c ∈ [Call.pushInput 7], c.IsIdle := List.forall_mem_singleton.mpr rfl
  obtain ⟨-, -, hagain⟩ := breakpoint_visits asker (.run 5) hstops
  obtain ⟨hresult, -, hcycles⟩ :=
    hagain [] (.run 5) [.pushInput 7] (.run 5) (List.forall_mem_nil _) hgives hidle (by decide)
  exact ⟨hstops, hgives, hresult, hcycles⟩

end Machine

end AnnaToolchain
