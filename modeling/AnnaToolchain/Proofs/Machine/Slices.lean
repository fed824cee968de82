import AnnaToolchain.Proofs.Machine.Guise

/-! # Running in slices

    A run that ends for want of cycles leaves a machine that knows all it
    needs to go on: the next run continues it.  Two runs with `m` and `n`
    cycles are one run with `m + n` cycles (`run_add`), and single steps are
    a run as well (`run_eq_afterSteps`). -/

namespace AnnaToolchain.Machine

/-- A run does not look at the status it starts from. -/
theorem runCycles_status (n : Nat) (m : Machine) (status : Status) :
    runCycles n { m with status := status } = runCycles n m := by
  cases n with
  | zero => rfl
  | succ n =>
    rw [runCycles_succ, runCycles_succ]
    rfl

theorem runCycles_add {m : Nat} {machine machine' : Machine}
    (h : runCycles m machine = (machine', .ok .cyclesExceeded)) (n : Nat) :
    runCycles (m + n) machine = runCycles n machine' := by
  obtain ⟨machine₁, hsteps, rfl⟩ := steps_of_cyclesExceeded h
  rw [hsteps.runCycles]
  exact (runCycles_status n machine₁ .paused).symm

/-- A run after a run that ended for want of cycles. -/
theorem run_add {machine : Machine} {m : Nat} (h : (machine.run m).2 = .ok .cyclesExceeded)
    (n : Nat) :
    machine.run (m + n) =
      ({ ((machine.run m).1.run n).1 with
          changes := (machine.run m).1.changes.union ((machine.run m).1.run n).1.changes },
        ((machine.run m).1.run n).2) := by
  unfold run at h
  rcases hr : runCycles m { machine with changes := .none } with ⟨machine', fault | stop⟩
  · rw [hr] at h
    cases h
  · rw [hr] at h
    have hstop : stop = .cyclesExceeded := Except.ok.inj h
    subst hstop
    -- the machine in the middle of the long run is the one between the runs in another guise
    let between : Machine := { machine' with changes := .none, lastStop := some .cyclesExceeded }
    have hm : machine' = (Guise.continued machine'.changes machine'.lastStop).apply between :=
      by simp [Guise.apply, Guise.continued, between]
    have hlong : runCycles (m + n) { machine with changes := .none }
        = ((Guise.continued machine'.changes machine'.lastStop).apply
            (runCycles n between).1, (runCycles n between).2) := by
      rw [runCycles_add hr, ← runCycles_apply _ (fun _ _ => rfl), ← hm]
    unfold run
    rw [hlong, conclude_apply, hr]
    rfl

/-! ## Single steps -/

/-- The machine after a number of single steps. -/
def afterSteps (machine : Machine) : Nat → Machine
  | 0 => machine
  | k + 1 => (machine.afterSteps k).step.1

/-- What a number of single steps changed together. -/
def stepChanges (machine : Machine) : Nat → Changes
  | 0 => .none
  | k + 1 => (machine.stepChanges k).union (machine.afterSteps (k + 1)).changes

/-- Single steps, none of which stops, are one run. -/
theorem run_eq_afterSteps (machine : Machine) (n : Nat)
    (h : ∀ k, k ≤ n → (machine.afterSteps k).step.2 = .ok .cyclesExceeded) :
    machine.run (n + 1) =
      ({ machine.afterSteps (n + 1) with changes := machine.stepChanges (n + 1) },
        .ok .cyclesExceeded) := by
  induction n with
  | zero =>
    have h₀ : (machine.run 1).2 = .ok .cyclesExceeded := h 0 (Nat.le_refl 0)
    have hc : machine.stepChanges 1 = (machine.run 1).1.changes := Changes.none_union _
    rw [hc, ← h₀]
    rfl
  | succ n ih =>
    -- the last step is a run of one cycle after the run so far
    have hn := ih fun k hk => h k (by omega)
    have hlast : ((machine.afterSteps (n + 1)).run 1).2 = .ok .cyclesExceeded :=
      h (n + 1) (Nat.le_refl _)
    rw [run_add (by rw [hn]) 1, hn]
    show ({ ((machine.afterSteps (n + 1)).run 1).1 with
        changes := (machine.stepChanges (n + 1)).union
          ((machine.afterSteps (n + 1)).run 1).1.changes },
      ((machine.afterSteps (n + 1)).run 1).2) = _
    rw [hlast]
    rfl

/-- **Slices.**  When a run ends for want of cycles, the next run ends as one run with the cycles
    of both, and leaves the same machine, with everything in it; only the record of changes is that
    of the last run, and the long run has the union.  So single steps that do not stop, one or more
    of them, are one run with as many cycles. -/
theorem run_slices (machine : Machine) :
    (∀ m n, (machine.run m).2 = .ok .cyclesExceeded →
      (machine.run (m + n)).2 = ((machine.run m).1.run n).2 ∧
      (machine.run (m + n)).1 =
        { ((machine.run m).1.run n).1 with
          changes := (machine.run m).1.changes.union ((machine.run m).1.run n).1.changes }) ∧
    (∀ n, (∀ k, k ≤ n → (machine.afterSteps k).step.2 = .ok .cyclesExceeded) →
      (machine.run (n + 1)).2 = .ok .cyclesExceeded ∧
      (machine.run (n + 1)).1 =
        { machine.afterSteps (n + 1) with changes := machine.stepChanges (n + 1) }) := by
  refine ⟨?_, ?_⟩
  · intro m n h
    rw [run_add h n]
    exact ⟨rfl, rfl⟩
  · intro n h
    rw [run_eq_afterSteps machine n h]
    exact ⟨rfl, rfl⟩

/-- A machine of one cell that adds one to `r1` for ever. -/
def counter : Machine :=
  (Machine.new { memLen := 1 }).writeMemory 0 0x3241

theorem run_slices_counter :
    ((counter.run 2).2 = .ok .cyclesExceeded ∧
      (counter.run (2 + 3)).1 =
        { ((counter.run 2).1.run 3).1 with
          changes := (counter.run 2).1.changes.union ((counter.run 2).1.run 3).1.changes }) ∧
    ((∀ k, k ≤ 1 → (counter.afterSteps k).step.2 = .ok .cyclesExceeded) ∧
      (counter.run (1 + 1)).1 =
        { counter.afterSteps (1 + 1) with changes := counter.stepChanges (1 + 1) }) := by
  have h₂ : (counter.run 2).2 = .ok .cyclesExceeded := by rfl
  have hs : ∀ k, k ≤ 1 → (counter.afterSteps k).step.2 = .ok .cyclesExceeded := by
    intro k hk
    rcases (by omega : k = 0 ∨ k = 1) with rfl | rfl
    · rfl
    · rfl
  exact ⟨⟨h₂, ((run_slices counter).1 2 3 h₂).2⟩, hs, ((run_slices counter).2 1 hs).2⟩

end AnnaToolchain.Machine
