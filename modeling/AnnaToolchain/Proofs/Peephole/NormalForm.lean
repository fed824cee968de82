import AnnaToolchain.Proofs.Peephole.Indices

/-! # Normal forms

    The three rules, said without the optimizer, are conditions on a
    statement and the one after it (`Matches`).  A place can be reduced
    exactly if one of them is met there (`reduce?_isSome_iff`), whatever
    notes are wanted.

    Each reduction takes away a statement with a mnemonic, so that there are
    at most as many reductions as statements.  What is left meets none of
    the conditions anywhere, and is left alone by the optimizer
    (`optimize_normalizes`). -/

namespace AnnaToolchain.Peephole

/-! ## The rules -/

/-- A rule applies to a statement that is followed by `next?`. -/
inductive Matches (s : Statement) : (next? : Option Statement) → Prop where
  /-- A `push` is followed by a `pop` with the same stack register, and no label is on that. -/
  | pair {next : Statement} {sp a sp' b : String} (hpush : pushOperands? s = some (sp, a))
      (hpop : popOperands? next = some (sp', b)) (hlabels : next.labels = [])
      (hsp : sameRegister sp sp' = true) : Matches s (some next)
  /-- An unconditional branch goes to the next statement. -/
  | hop {next? : Option Statement} {target : String} (htarget : branchTarget? s = some target)
      (hnext : goesToNext target next? = true) : Matches s next?
  /-- An unconditional branch is followed by another one, and no label is on that. -/
  | unreachable {next : Statement} (hs : (branchTarget? s).isSome)
      (hnext : (branchTarget? next).isSome) (hlabels : next.labels = []) : Matches s (some next)

section

variable {annotate : Bool} {before rest : List Statement} {s : Statement}

/-- A partner has a mnemonic, which what is read from it says already. -/
theorem bind_partner?_eq_some_iff {α : Type} {f : Statement → Option α}
    (hf : ∀ s x, f s = some x → s.isReal = true) {x : α} :
    (partner? rest).bind f = some x ↔
      ∃ next, rest.head? = some next ∧ next.labels = [] ∧ f next = some x := by
  simp only [partner?, Option.bind_eq_some_iff, Option.filter_eq_some_iff, Bool.and_eq_true,
    List.isEmpty_iff]
  constructor
  · rintro ⟨next, ⟨hnext, -, hlabels⟩, hx⟩
    exact ⟨next, hnext, hlabels, hx⟩
  · rintro ⟨next, hnext, hlabels, hx⟩
    exact ⟨next, ⟨hnext, hf next x hx, hlabels⟩, hx⟩

theorem isReal_of_popOperands? (s : Statement) (x : String × String)
    (h : popOperands? s = some x) : s.isReal = true := by
  unfold popOperands? at h
  split at h
  · next hop _ => rw [Statement.isReal, hop]; rfl
  · cases h

/-- When the first rule applies, whatever its note says. -/
theorem reducePair?_isSome_iff :
    (reducePair? annotate before s rest).isSome = true ↔
      ∃ next sp a sp' b, rest.head? = some next ∧ next.labels = []
        ∧ pushOperands? s = some (sp, a) ∧ popOperands? next = some (sp', b)
        ∧ sameRegister sp sp' = true := by
  cases rest with
  | nil =>
    constructor
    · intro h
      cases h
    · rintro ⟨next, sp, a, sp', b, hnext, -⟩
      cases hnext
  | cons next rest =>
    have hpop (x : String × String) : (partner? [next]).bind popOperands? = some x ↔
        ∃ next', [next].head? = some next' ∧ next'.labels = [] ∧ popOperands? next' = some x :=
      bind_partner?_eq_some_iff isReal_of_popOperands?
    constructor
    · intro h
      simp only [reducePair?] at h
      split at h
      · next sp a sp' b hpush hpartner =>
        obtain ⟨next', hnext, hlabels, hpop⟩ := (hpop _).mp hpartner
        split at h
        · next hsp => exact ⟨next', sp, a, sp', b, hnext, hlabels, hpush, hpop, hsp⟩
        · cases h
      · cases h
    · rintro ⟨next', sp, a, sp', b, hnext, hlabels, hpush, hpop', hsp⟩
      have hpartner := (hpop _).mpr ⟨next', hnext, hlabels, hpop'⟩
      simp only [reducePair?, hpush, hpartner, hsp, if_true]
      split <;> rfl

/-- When the second or the third rule applies, whatever their notes say. -/
theorem reduceBranch?_isSome_iff :
    (reduceBranch? annotate before s rest).isSome = true ↔
      ∃ target, branchTarget? s = some target ∧ (goesToNext target rest.head? = true
        ∨ ∃ next, rest.head? = some next ∧ next.labels = [] ∧ (branchTarget? next).isSome) := by
  have hpartner (next : Statement) : ((partner? [next]).bind branchTarget?).isSome = true ↔
      next.labels = [] ∧ (branchTarget? next).isSome := by
    simp only [Option.isSome_iff_exists,
      bind_partner?_eq_some_iff fun _ _ h => isReal_of_branchTarget? h, List.head?_cons,
      Option.some.injEq, exists_eq_left', exists_and_left]
  unfold reduceBranch?
  cases htarget : branchTarget? s with
  | none => simp
  | some target =>
    simp only [Option.some.injEq, exists_eq_left']
    split
    · next hgoes => exact iff_of_true rfl (.inl hgoes)
    · next hgoes =>
      -- the second rule does not apply, so it comes down to the third
      rw [or_iff_right hgoes]
      cases rest with
      | nil => simp
      | cons next rest =>
        simp only [List.head?_cons, Option.some.injEq, exists_eq_left', ← hpartner]
        split <;> simp [*]

/-- **Where a rule applies.**  A place can be reduced exactly if a rule applies there. -/
theorem reduce?_isSome_iff :
    (reduce? annotate before s rest).isSome = true ↔ Matches s rest.head? := by
  have hrules : (reduce? annotate before s rest).isSome = true ↔
      (reducePair? annotate before s rest).isSome = true
        ∨ (reduceBranch? annotate before s rest).isSome = true := by
    unfold reduce?
    cases reducePair? annotate before s rest <;> simp
  rw [hrules, reducePair?_isSome_iff, reduceBranch?_isSome_iff]
  constructor
  · rintro (⟨next, sp, a, sp', b, hnext, hlabels, hpush, hpop, hsp⟩
      | ⟨target, htarget, hgoes | ⟨next, hnext, hlabels, hbranch⟩⟩)
    · rw [hnext]
      exact .pair hpush hpop hlabels hsp
    · exact .hop htarget hgoes
    · rw [hnext]
      exact .unreachable (by rw [htarget]; rfl) hbranch hlabels
  · intro h
    generalize hnext : rest.head? = next? at h
    cases h with
    | pair hpush hpop hlabels hsp => exact .inl ⟨_, _, _, _, _, rfl, hlabels, hpush, hpop, hsp⟩
    | hop htarget hgoes => exact .inr ⟨_, htarget, .inl hgoes⟩
    | unreachable hs hbranch hlabels =>
      obtain ⟨target, htarget⟩ := Option.isSome_iff_exists.mp hs
      exact .inr ⟨target, htarget, .inr ⟨_, rfl, hlabels, hbranch⟩⟩

theorem reduce?_eq_none_iff : reduce? annotate before s rest = none ↔ ¬ Matches s rest.head? := by
  rw [← Option.not_isSome_iff_eq_none]
  exact not_congr reduce?_isSome_iff

end

/-! ## Programs without a match -/

/-- No rule applies anywhere in a program. -/
def Normal (p : Program) : Prop :=
  ∀ i s, p[i]? = some s → ¬ Matches s p[i + 1]?

theorem normal_cons_iff {s : Statement} {rest : Program} :
    Normal (s :: rest) ↔ ¬ Matches s rest.head? ∧ Normal rest := by
  rw [List.head?_eq_getElem?]
  constructor
  · intro h
    exact ⟨h 0 s rfl, fun i => h (i + 1)⟩
  · rintro ⟨hfirst, hrest⟩ i t ht
    cases i with
    | zero =>
      cases ht
      exact hfirst
    | succ i => exact hrest i t ht

/-- What is before plays no part in it, and neither do the notes. -/
theorem isNormal_iff {annotate : Bool} {before after : List Statement} :
    isNormal annotate before after = true ↔ Normal after := by
  induction after generalizing before with
  | nil => exact iff_of_true rfl fun i s hs => by cases hs
  | cons s rest ih =>
    rw [isNormal, Bool.and_eq_true, Option.isNone_iff_eq_none, reduce?_eq_none_iff, ih,
      normal_cons_iff]

/-- At no index of such a program can it be reduced. -/
theorem Normal.reduceAt_eq {p : Program} (h : Normal p) (annotate : Bool) {i : Nat}
    (hi : i < p.length) : Indexed.reduceAt annotate p i = .ok none := by
  obtain ⟨before, s, rest, rfl, rfl⟩ := Indexed.exists_split hi
  have hmatch := h before.length s (by simp)
  rw [← List.length_reverse, Indexed.getElem?_next] at hmatch
  rw [Indexed.reduceAt_eq, reduce?_eq_none_iff.mpr hmatch]
  rfl

/-! ## The end of optimizing -/

/-- A pass that finds nothing to reduce has gone through a program without a match. -/
theorem normal_of_sweepFrom {annotate : Bool} {n : Nat} {before after : List Statement}
    (h : (sweepFrom annotate n before after).2 = n) :
    (sweepFrom annotate n before after).1 = before.reverse ++ after
      ∧ isNormal annotate before after = true := by
  fun_induction sweepFrom annotate n before after with
  | case1 n before => exact ⟨(List.append_nil _).symm, rfl⟩
  | case2 n before s rest p hreduce ih =>
    -- the reduction would have been counted
    obtain ⟨k, hcount, -⟩ := sweepFrom_reductions annotate (n + 1) p.back.before p.back.after
    omega
  | case3 n before s rest hreduce ih =>
    obtain ⟨hprogram, hnormal⟩ := ih h
    refine ⟨?_, ?_⟩
    · rw [hprogram, List.reverse_cons, List.append_assoc, List.singleton_append]
    · rw [isNormal, hreduce, hnormal]
      rfl

/-- Nothing is left to reduce. -/
theorem normal_optimize (annotate : Bool) (p : Program) : Normal (optimize annotate p).1 := by
  fun_induction optimize annotate p with
  | case1 p q h =>
    have hsweep : (sweepFrom annotate 0 [] p) = (q, 0) := h
    obtain ⟨hprogram, hnormal⟩ := normal_of_sweepFrom (by rw [hsweep])
    rw [hsweep] at hprogram
    rw [show q = p from hprogram]
    exact isNormal_iff.mp hnormal
  | case2 p q n h rest ih => exact ih

/-- Each reduction has taken away a statement with a mnemonic. -/
theorem realCount_optimize_le (annotate : Bool) (p : Program) :
    (optimize annotate p).1.realCount + (optimize annotate p).2 ≤ p.realCount := by
  fun_induction optimize annotate p with
  | case1 p q h =>
    have hsweep := sweep_realCount annotate p
    rw [h] at hsweep
    exact hsweep
  | case2 p q n h rest ih =>
    have hsweep := sweep_realCount annotate p
    rw [h] at hsweep
    show (optimize annotate q).1.realCount + (n + 1 + (optimize annotate q).2) ≤ p.realCount
    simp only at hsweep
    omega

/-- **The normal form.**  Optimizing misses no index of the program.  A reduction at any index
    leaves fewer statements with a mnemonic, so that there are at most as many reductions as such
    statements.  At no index of what is left does a rule apply, and it stays as it is, whether
    notes are wanted or not. -/
theorem optimize_normalizes (annotate : Bool) (p : Program) :
    ∃ (q : Program) (n : Nat), optimize annotate p = (q, n)
      ∧ Indexed.optimizeAt annotate p = .ok (q, n)
      ∧ (∀ annotate' p₁ i p₂, Indexed.reduceAt annotate' p₁ i = .ok (some p₂) →
          p₂.realCount < p₁.realCount)
      ∧ n ≤ p.realCount
      ∧ (∀ i s, q[i]? = some s → ¬ Matches s q[i + 1]?)
      ∧ (∀ annotate' i, i < q.length → Indexed.reduceAt annotate' q i = .ok none)
      ∧ ∀ annotate', optimize annotate' q = (q, 0) := by
  have hnormal := normal_optimize annotate p
  have hcount := realCount_optimize_le annotate p
  exact ⟨_, _, rfl, Indexed.optimizeAt_eq annotate p,
    fun _ _ _ _ h => Indexed.realCount_reduceAt_lt h, by omega, hnormal,
    fun annotate' _ hi => hnormal.reduceAt_eq annotate' hi,
    fun annotate' => optimize_of_normal (isNormal_iff.mpr hnormal)⟩

/-- A branch to what comes after it, with a label on it. -/
def stub : Statement :=
  { labels := ["end"], op := some (.pseudo .br), operands := ["0"] }

/-- Where nothing comes after it, the branch goes and its label stays behind in a loose
    statement. -/
theorem optimize_normalizes_stub :
    Indexed.reduceAt false [stub] 0 = .ok (some [Statement.loose ["end"] [] 0])
      ∧ Program.realCount [Statement.loose ["end"] [] 0] < Program.realCount [stub]
      ∧ optimize false [stub] = ([Statement.loose ["end"] [] 0], 1)
      ∧ ¬ Matches (Statement.loose ["end"] [] 0) none
      ∧ Indexed.reduceAt true [Statement.loose ["end"] [] 0] 0 = .ok none
      ∧ optimize true [Statement.loose ["end"] [] 0] = ([Statement.loose ["end"] [] 0], 0) := by
  have hreduce : reduce? false [] stub [] = some ⟨[], [Statement.loose ["end"] [] 0]⟩ := by
    decide +kernel
  have hat : Indexed.reduceAt false [stub] 0 = .ok (some [Statement.loose ["end"] [] 0]) := by
    have h := Indexed.reduceAt_eq false [] [] stub
    rw [hreduce] at h
    exact h
  have hsweep : sweep false [stub] = ([Statement.loose ["end"] [] 0], 1) := by
    rw [sweep, sweepFrom_of_some hreduce]
    exact sweepFrom_of_normal (by decide +kernel)
  have hoptimize : optimize false [stub] = ([Statement.loose ["end"] [] 0], 1) := by
    rw [optimize_of_reduced hsweep, optimize_of_normal (by decide +kernel)]
    rfl
  obtain ⟨q, n, hq, -, hless, -, hmatch, hnone, hagain⟩ := optimize_normalizes false [stub]
  rw [hoptimize] at hq
  cases hq
  exact ⟨hat, hless false _ 0 _ hat, hoptimize, hmatch 0 _ rfl, hnone true 0 (by decide),
    hagain true⟩

end AnnaToolchain.Peephole
