import AnnaToolchain.Proofs.Machine.Guise

/-! # Running past breakpoints

    To run a program past its breakpoints is to run it without them
    (`resume_transparent`).  Between two stops the machine is the one that
    has no breakpoints in another guise, for the instruction it stopped at
    is the first it executes when it goes on.  That one instruction also
    bounds the number of stops: a machine that is paused where it stands
    spends a cycle before it can stop again. -/

namespace AnnaToolchain.Machine

/-- Running with the cycles left, again and again while the machine stops at breakpoints.  No run
    spends more cycles than were left. -/
inductive Resumes : Machine → Nat → Machine → Except Fault Stop → Prop where
  | finish {m m' : Machine} {budget : Nat} {result : Except Fault Stop}
      (h : m.run budget = (m', result)) (hr : result ≠ .ok .breakpoint)
      (hge : m.cycles ≤ m'.cycles) (hle : m'.cycles - m.cycles ≤ budget) :
      Resumes m budget m' result
  | again {m m' m'' : Machine} {budget : Nat} {result : Except Fault Stop}
      (h : m.run budget = (m', .ok .breakpoint))
      (hge : m.cycles ≤ m'.cycles) (hle : m'.cycles - m.cycles ≤ budget)
      (rest : Resumes m' (budget - (m'.cycles - m.cycles)) m'' result) :
      Resumes m budget m'' result

theorem conclude_snd (ran : Machine × Except Fault Stop) : (conclude ran).2 = ran.2 := by
  obtain ⟨m, fault | stop⟩ := ran
  · rfl
  · rfl

theorem conclude_cycles (ran : Machine × Except Fault Stop) :
    (conclude ran).1.cycles = ran.1.cycles := by
  obtain ⟨m, fault | stop⟩ := ran
  · rfl
  · rfl

theorem run_cycles (m : Machine) (budget : Nat) :
    m.cycles ≤ (m.run budget).1.cycles ∧ (m.run budget).1.cycles - m.cycles ≤ budget := by
  unfold run
  rw [conclude_cycles]
  obtain ⟨hge, hle⟩ := runCycles_cycles budget { m with changes := .none }
  exact ⟨hge, Nat.sub_le_iff_le_add'.mpr hle⟩

/-! ## One run of the row -/

/-- The machine that runs on without breakpoints, after what had changed `before`. -/
def unwatched (m : Machine) (before : Changes) (stop : Option Stop) : Machine :=
  (Guise.unwatched before stop).apply { m with changes := .none }

@[simp] theorem atBreakpoint_unwatched (m : Machine) (before : Changes) (stop : Option Stop) :
    ((Guise.unwatched before stop).apply m).atBreakpoint = false := by
  simp [atBreakpoint, Guise.apply, Guise.unwatched]

theorem runCycles_unwatched {m m₁ : Machine} {k budget : Nat} (hk : k ≤ budget)
    (h : Steps k { m with changes := .none } m₁) (before : Changes) (stop : Option Stop) :
    runCycles budget (m.unwatched before stop)
      = runCycles (budget - k) ((Guise.unwatched before stop).apply m₁) := by
  have hs := h.apply (Guise.unwatched before stop)
    (fun memory address => Memory.hasBreakpoint_clearBreakpoints memory address)
  rw [← hs.runCycles, show k + (budget - k) = budget from by omega]
  rfl

/-- Where there is no breakpoint it does not matter whether the machine is paused at one. -/
theorem runCycles_paused (m : Machine) (hm : m.memory.hasBreakpoint m.pc = false)
    (status : Status) (pausedAt : Option Word) (left : Nat) :
    runCycles (left + 1) { m with status := status, pausedAt := pausedAt }
      = runCycles (left + 1) m := by
  have h₁ : m.atBreakpoint = false := by simp [atBreakpoint, hm]
  have h₂ : atBreakpoint { m with status := status, pausedAt := pausedAt } = false := by
    simp [atBreakpoint, hm]
  rw [runCycles_succ, runCycles_succ, h₁, h₂, attempt_status]
  simp only [Bool.false_eq_true, if_false]

/-- A run that stops at no breakpoint ends as the one without them. -/
theorem run_unwatched {m m' : Machine} {budget : Nat} {result : Except Fault Stop}
    (h : m.run budget = (m', result)) (hr : result ≠ .ok .breakpoint) (before : Changes)
    (stop : Option Stop) :
    ∃ changes, conclude (runCycles budget (m.unwatched before stop))
      = ({ m'.clearBreakpoints with changes := changes }, result) := by
  obtain ⟨k, m₁, hk, hsteps, hend⟩ := runCycles_ending budget { m with changes := .none }
  -- what ends the run ends the one without breakpoints, too
  have hsame : runCycles budget (m.unwatched before stop)
      = ((Guise.unwatched before stop).apply (runCycles budget { m with changes := .none }).1,
          (runCycles budget { m with changes := .none }).2) := by
    rw [runCycles_unwatched hk hsteps]
    unfold run at h
    generalize runCycles budget { m with changes := .none } = ran at h hend
    cases hend with
    | exhausted hleft =>
      rw [hleft, runCycles_zero]
      rfl
    | breakpoint hleft hb => exact absurd (congrArg Prod.snd h).symm hr
    | finished hleft hb he =>
      obtain ⟨left, hl⟩ : ∃ left, budget - k = left + 1 := ⟨budget - k - 1, by omega⟩
      rw [hl, runCycles_succ, atBreakpoint_unwatched, attempt_apply, he]
      rfl
  unfold run at h
  rw [hsame, conclude_apply, h]
  exact ⟨_, rfl⟩

/-- A run that stops at a breakpoint comes as far as the one without breakpoints, which then goes
    on from the same place. -/
theorem run_breakpoint {m m' : Machine} {budget : Nat}
    (h : m.run budget = (m', .ok .breakpoint)) :
    ∃ k, k < budget ∧ m'.cycles = m.cycles + k ∧ m'.pausedAt = some m'.pc ∧
      (m.pausedAt = some m.pc → 0 < k) ∧
      ∀ before stop, ∃ before', runCycles budget (m.unwatched before stop)
        = runCycles (budget - k) (m'.unwatched before' stop) := by
  obtain ⟨k, m₁, hk, hsteps, hend⟩ := runCycles_ending budget { m with changes := .none }
  have hr : (runCycles budget { m with changes := .none }).2 = .ok .breakpoint := by
    rw [← conclude_snd]
    exact congrArg Prod.snd h
  unfold run at h
  generalize runCycles budget { m with changes := .none } = ran at h hr hend
  cases hend with
  | exhausted hleft => cases hr
  | finished hleft hb he => cases (attempt_ended he).result_ne _ hr
  | breakpoint hleft hb =>
    have hm' : m' = { m₁.pauseHere with lastStop := some .breakpoint } :=
      (congrArg Prod.fst h).symm
    refine ⟨k, by omega, ?_, ?_, ?_, ?_⟩
    · rw [hm']
      exact hsteps.cycles
    · rw [hm']
      rfl
    · intro hp
      -- with no step made it would still be paused there, and would not have stopped
      rcases Nat.eq_zero_or_pos k with rfl | hpos
      · cases hsteps
        have hpaused : m.pausedAt = some m.pc := hp
        simp [atBreakpoint, hpaused] at hb
      · exact hpos
    · intro before stop
      refine ⟨before.union m₁.changes, ?_⟩
      -- the machine that stopped is, without breakpoints, the one that did not
      have hunwatched : m'.unwatched (before.union m₁.changes) stop
          = { (Guise.unwatched before stop).apply m₁ with
              status := .paused, pausedAt := some m₁.pc } := by
        rw [hm']
        simp [unwatched, Guise.apply, Guise.unwatched, pauseHere]
      obtain ⟨left, hl⟩ : ∃ left, budget - k = left + 1 := ⟨budget - k - 1, by omega⟩
      rw [runCycles_unwatched hk hsteps, hunwatched, hl]
      exact (runCycles_paused _ (Memory.hasBreakpoint_clearBreakpoints m₁.memory _) _ _ left).symm

/-! ## The whole row -/

/-- There is room for all stops a run with `budget` cycles can make, and the runs that continue it:
    one for each cycle, or one less if the machine is paused where it stands. -/
def Room (more : Nat) (m : Machine) (budget : Nat) : Prop :=
  budget ≤ more ∨ (budget ≤ more + 1 ∧ m.pausedAt = some m.pc)

/-- A stop takes up room, and what is left is enough for the runs after it. -/
theorem Room.after_stop {more budget : Nat} {m m' : Machine} (h : Room more m budget)
    (hrun : m.run budget = (m', .ok .breakpoint)) :
    ∃ left, more = left + 1 ∧ Room left m' (budget - (m'.cycles - m.cycles)) := by
  obtain ⟨k, hk, hcycles, hpaused, hpos, -⟩ := run_breakpoint hrun
  rcases h with h | ⟨h, hp⟩
  · exact ⟨more - 1, by omega, .inr ⟨by omega, hpaused⟩⟩
  · -- paused here, the machine has spent a cycle before it stopped again
    have hk' : 0 < k := hpos hp
    exact ⟨more - 1, by omega, .inr ⟨by omega, hpaused⟩⟩

/-- While there is room, running past breakpoints comes to an end, and to the same end as running
    without them. -/
theorem resumeFrom_spec (more : Nat) : ∀ (m : Machine) (budget : Nat) (seen : List Visit)
    (before : Changes) (stop : Option Stop), Room more m budget →
    Resumes m budget (m.resumeFrom budget seen more).machine
      (m.resumeFrom budget seen more).result ∧
    ∃ changes, conclude (runCycles budget (m.unwatched before stop))
      = ({ (m.resumeFrom budget seen more).machine.clearBreakpoints with changes := changes },
          (m.resumeFrom budget seen more).result) := by
  induction more with
  | zero =>
    intro m budget seen before stop hroom
    have hc := run_cycles m budget
    -- with no room for a stop, this run is the last one
    have hr : (m.run budget).2 ≠ .ok .breakpoint := by
      intro hb
      have hrun : m.run budget = ((m.run budget).1, .ok .breakpoint) := Prod.ext rfl hb
      obtain ⟨left, hleft, -⟩ := hroom.after_stop hrun
      cases hleft
    exact ⟨.finish rfl hr hc.1 hc.2, run_unwatched rfl hr before stop⟩
  | succ more ih =>
    intro m budget seen before stop hroom
    have hc := run_cycles m budget
    rcases hrun : m.run budget with ⟨m', result⟩
    rw [hrun] at hc
    by_cases hb : result = .ok .breakpoint
    · -- a stop: the rest of the row starts where it is
      subst hb
      obtain ⟨k, hk, hcycles, -, -, hahead⟩ := run_breakpoint hrun
      obtain ⟨before', hsame⟩ := hahead before stop
      obtain ⟨left, hleft, hroom'⟩ := hroom.after_stop hrun
      cases hleft
      obtain ⟨hresumes, hend⟩ := ih m' _ (⟨m'.pc, m'.registers⟩ :: seen) before' stop hroom'
      have hrest : m.resumeFrom budget seen (more + 1)
          = m'.resumeFrom (budget - (m'.cycles - m.cycles)) (⟨m'.pc, m'.registers⟩ :: seen)
              more := by
        rw [resumeFrom]
        simp only [hrun]
      rw [hrest]
      refine ⟨.again hrun hc.1 hc.2 hresumes, ?_⟩
      rw [hsame, show budget - k = budget - (m'.cycles - m.cycles) from by omega]
      exact hend
    · have hrest : m.resumeFrom budget seen (more + 1) = ⟨m', result, seen.reverse⟩ := by
        rw [resumeFrom]
        simp only [hrun]
      rw [hrest]
      exact ⟨.finish hrun hb hc.1 hc.2, run_unwatched hrun hb before stop⟩

/-- **Breakpoints are transparent.**  Running past all breakpoints comes to an end, with cycles
    enough for every run on the way, and with the result of one run without breakpoints.  The
    machine is the same as well, up to the breakpoints themselves and the record of changes,
    which is kept for each run alone. -/
theorem resume_transparent (m : Machine) (budget : Nat) :
    Resumes m budget (m.resume budget).machine (m.resume budget).result ∧
    (m.resume budget).result = (m.clearBreakpoints.run budget).2 ∧
    ∃ changes, (m.clearBreakpoints.run budget).1
      = { (m.resume budget).machine.clearBreakpoints with changes := changes } := by
  obtain ⟨hresumes, changes, hend⟩ := resumeFrom_spec budget m budget [] .none m.lastStop
    (.inl (Nat.le_refl budget))
  have hstart : { m.clearBreakpoints with changes := Changes.none }
      = m.unwatched .none m.lastStop := by
    simp [unwatched, Guise.apply, Guise.unwatched, clearBreakpoints]
  have hrun : m.clearBreakpoints.run budget
      = ({ (m.resume budget).machine.clearBreakpoints with changes := changes },
          (m.resume budget).result) := by
    unfold run
    rw [hstart]
    exact hend
  rw [hrun]
  exact ⟨hresumes, rfl, changes, rfl⟩

end AnnaToolchain.Machine
