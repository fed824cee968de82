import AnnaToolchain.Peephole

/-! # Reductions

    There are four ways in which a program is reduced (`Reduction`): a `push`
    and a `pop` of one register go, or become a `mov`; a branch to the next
    statement goes; an unconditional branch goes that comes after another
    one.  What stands before and after plays no part.

    Optimizing is a row of such reductions, as many as it reports
    (`optimize_reductions`). -/

namespace AnnaToolchain.Peephole

/-! ## One reduction -/

/-- One reduction of a program. -/
inductive Reduction (annotate : Bool) : Program → Program → Prop where
  | cancel {before rest : List Statement} {push pop : Statement} {sp a sp' b : String}
      (hpush : pushOperands? push = some (sp, a)) (hpop : popOperands? pop = some (sp', b))
      (hlabels : pop.labels = []) (hsp : sameRegister sp sp' = true)
      (hab : sameRegister a b = true) :
      Reduction annotate (before.reverse ++ push :: pop :: rest)
        (discard ⟨before, rest⟩ [push, pop]
          (noteIf annotate ("removed push/pop of " ++ a))).program
  | merge {before rest : List Statement} {push pop : Statement} {sp a sp' b : String}
      (hpush : pushOperands? push = some (sp, a)) (hpop : popOperands? pop = some (sp', b))
      (hlabels : pop.labels = []) (hsp : sameRegister sp sp' = true)
      (hab : sameRegister a b = false) :
      Reduction annotate (before.reverse ++ push :: pop :: rest)
        (before.reverse
          ++ movOf push pop a b (noteIf annotate "push/pop became mov") :: rest)
  | hop {before rest : List Statement} {s : Statement} {target : String}
      (htarget : branchTarget? s = some target) (hnext : goesToNext target rest.head? = true) :
      Reduction annotate (before.reverse ++ s :: rest)
        (discard ⟨before, rest⟩ [s] (noteIf annotate "removed branch to next statement")).program
  | unreachable {before rest : List Statement} {s next : Statement}
      (hs : (branchTarget? s).isSome) (hnext : (branchTarget? next).isSome)
      (hlabels : next.labels = []) :
      Reduction annotate (before.reverse ++ s :: next :: rest)
        (discard ⟨s :: before, rest⟩ [next] (noteIf annotate "removed unreachable branch")).program

theorem partner?_singleton_eq_some {s next : Statement} (h : partner? [s] = some next) :
    next = s ∧ s.labels = [] := by
  simp only [partner?, List.head?_cons, Option.filter_eq_some_iff, Option.some.injEq,
    Bool.and_eq_true, List.isEmpty_iff] at h
  exact ⟨h.1.symm, h.1 ▸ h.2.2⟩

theorem reducePair?_reduction {annotate : Bool} {before rest : List Statement} {s : Statement}
    {p : Place} (h : reducePair? annotate before s rest = some p) :
    Reduction annotate (before.reverse ++ s :: rest) p.program := by
  unfold reducePair? at h
  split at h
  · cases h
  · next next rest =>
    split at h
    · next sp a sp' b hpush hpartner =>
      obtain ⟨pop, hpartner, hpop⟩ := Option.bind_eq_some_iff.mp hpartner
      obtain ⟨rfl, hlabels⟩ := partner?_singleton_eq_some hpartner
      split at h
      · next hsp =>
        split at h
        · next hab =>
          cases h
          exact .cancel hpush hpop hlabels hsp hab
        · next hab =>
          cases h
          exact .merge hpush hpop hlabels hsp (Bool.eq_false_iff.mpr hab)
      · cases h
    · cases h

theorem reduceBranch?_reduction {annotate : Bool} {before rest : List Statement} {s : Statement}
    {p : Place} (h : reduceBranch? annotate before s rest = some p) :
    Reduction annotate (before.reverse ++ s :: rest) p.program := by
  unfold reduceBranch? at h
  split at h
  · cases h
  · next target htarget =>
    split at h
    · next hnext =>
      cases h
      exact .hop htarget hnext
    · split at h
      · cases h
      · next next rest _ =>
        split at h
        · next hbranch =>
          cases h
          obtain ⟨target', hpartner⟩ := Option.isSome_iff_exists.mp hbranch
          obtain ⟨branch, hpartner, htarget'⟩ := Option.bind_eq_some_iff.mp hpartner
          obtain ⟨rfl, hlabels⟩ := partner?_singleton_eq_some hpartner
          rw [Place.program_back]
          exact .unreachable (by rw [htarget]; rfl) (by rw [htarget']; rfl) hlabels
        · cases h

/-- The rules reduce a program in one of the four ways. -/
theorem reduce?_reduction {annotate : Bool} {before rest : List Statement} {s : Statement}
    {p : Place} (h : reduce? annotate before s rest = some p) :
    Reduction annotate (before.reverse ++ s :: rest) p.program := by
  unfold reduce? at h
  split at h
  · next hpair =>
    cases h
    exact reducePair?_reduction hpair
  · exact reduceBranch?_reduction h

/-! ## Passes, step by step -/

section

variable {annotate : Bool} {n : Nat} {before rest : List Statement} {s : Statement}

theorem sweepFrom_nil (annotate : Bool) (n : Nat) (before : List Statement) :
    sweepFrom annotate n before [] = (before.reverse, n) := by
  rw [sweepFrom]

theorem sweepFrom_of_some {p : Place} (h : reduce? annotate before s rest = some p) :
    sweepFrom annotate n before (s :: rest)
      = sweepFrom annotate (n + 1) p.back.before p.back.after := by
  rw [sweepFrom]
  split
  · next p' h' =>
    rw [h] at h'
    cases h'
    rfl
  · next h' =>
    rw [h] at h'
    cases h'

theorem sweepFrom_of_none (h : reduce? annotate before s rest = none) :
    sweepFrom annotate n before (s :: rest) = sweepFrom annotate n (s :: before) rest := by
  rw [sweepFrom]
  split
  · next h' =>
    rw [h] at h'
    cases h'
  · rfl

theorem optimize_of_done {p p' : Program} (h : sweep annotate p = (p', 0)) :
    optimize annotate p = (p', 0) := by
  rw [optimize]
  split
  · next h' =>
    rw [h] at h'
    cases h'
    rfl
  · next h' =>
    rw [h] at h'
    cases h'

theorem optimize_of_reduced {p p' : Program} (h : sweep annotate p = (p', n + 1)) :
    optimize annotate p = ((optimize annotate p').1, n + 1 + (optimize annotate p').2) := by
  rw [optimize]
  split
  · next h' =>
    rw [h] at h'
    cases h'
  · next h' =>
    rw [h] at h'
    cases h'
    rfl

/-- Whether no rule applies to any of the statements `after`. -/
def isNormal (annotate : Bool) (before : List Statement) : (after : List Statement) → Bool
  | [] => true
  | s :: rest => (reduce? annotate before s rest).isNone && isNormal annotate (s :: before) rest

theorem sweepFrom_of_normal {after : List Statement} (h : isNormal annotate before after = true) :
    sweepFrom annotate n before after = (before.reverse ++ after, n) := by
  induction after generalizing before with
  | nil => rw [sweepFrom_nil, List.append_nil]
  | cons s rest ih =>
    rw [isNormal, Bool.and_eq_true, Option.isNone_iff_eq_none] at h
    rw [sweepFrom_of_none h.1, ih h.2, List.reverse_cons, List.append_assoc, List.singleton_append]

/-- A program to which no rule applies is left as it is. -/
theorem optimize_of_normal {p : Program} (h : isNormal annotate [] p = true) :
    optimize annotate p = (p, 0) := by
  apply optimize_of_done
  unfold sweep
  rw [sweepFrom_of_normal h]
  rfl

end

/-! ## Rows of reductions -/

/-- A number of reductions, one after another. -/
inductive Reductions (annotate : Bool) : Nat → Program → Program → Prop where
  | none (p : Program) : Reductions annotate 0 p p
  | step {k : Nat} {p q r : Program} (first : Reduction annotate p q)
      (others : Reductions annotate k q r) : Reductions annotate (k + 1) p r

theorem Reductions.trans {annotate : Bool} {j k : Nat} {p q r : Program}
    (h : Reductions annotate j p q) (h' : Reductions annotate k q r) :
    Reductions annotate (j + k) p r := by
  induction h with
  | none p =>
    rw [Nat.zero_add]
    exact h'
  | step first _ ih =>
    rw [Nat.add_right_comm]
    exact .step first (ih h')

theorem sweepFrom_reductions (annotate : Bool) (n : Nat) (before after : List Statement) :
    ∃ k, (sweepFrom annotate n before after).2 = n + k
      ∧ Reductions annotate k (before.reverse ++ after) (sweepFrom annotate n before after).1 := by
  fun_induction sweepFrom annotate n before after with
  | case1 n before =>
    rw [List.append_nil]
    exact ⟨0, rfl, .none _⟩
  | case2 n before s rest p h ih =>
    -- after a reduction the pass goes on one statement earlier, in the same program
    obtain ⟨k, hcount, hrest⟩ := ih
    have hprogram : p.back.before.reverse ++ p.back.after = p.program := p.program_back
    rw [hprogram] at hrest
    exact ⟨k + 1, by rw [hcount]; omega, .step (reduce?_reduction h) hrest⟩
  | case3 n before s rest h ih =>
    rw [List.reverse_cons, List.append_assoc, List.singleton_append] at ih
    exact ih

theorem sweep_reductions (annotate : Bool) (p : Program) :
    Reductions annotate (sweep annotate p).2 p (sweep annotate p).1 := by
  obtain ⟨k, hcount, h⟩ := sweepFrom_reductions annotate 0 [] p
  rw [Nat.zero_add] at hcount
  unfold sweep
  rw [hcount]
  exact h

/-- **Optimizing** a program reduces it as often as is reported. -/
theorem optimize_reductions (annotate : Bool) (p : Program) :
    Reductions annotate (optimize annotate p).2 p (optimize annotate p).1 := by
  fun_induction optimize annotate p with
  | case1 p p' h =>
    have hsweep := sweep_reductions annotate p
    rw [h] at hsweep
    exact hsweep
  | case2 p p' n h rest ih =>
    have hsweep := sweep_reductions annotate p
    rw [h] at hsweep
    exact hsweep.trans ih

end AnnaToolchain.Peephole
