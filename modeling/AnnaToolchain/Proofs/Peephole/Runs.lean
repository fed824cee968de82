import AnnaToolchain.Proofs.Assembly.Singles
import AnnaToolchain.Proofs.Machine.Resume
import AnnaToolchain.Proofs.Peephole.Simulation

/-! # Runs of an optimized program

    Where a plain program comes to an end, the optimized one comes to the
    same end, and takes no more cycles (`optimize_runs`).

    There is one exception to the latter.  A program that fills the largest
    memory can run past its end, and comes back to the front.  The optimized
    program is shorter, and passes through the empty cells behind it first
    (`Arrived.settles`).  So it can take longer (`optimize_takes_longer`). -/

namespace AnnaToolchain

namespace Machine

/-- How often a machine comes to address zero in at most `k` cycles. -/
def returns (m : Machine) : (k : Nat) → Nat
  | 0 => 0
  | k + 1 =>
    match m.attempt with
    | .ended _ _ => 0
    | .went m' => (if m'.pc = 0 then 1 else 0) + returns m' k

/-- In more cycles a machine comes there no less often. -/
theorem returns_mono (m : Machine) {j k : Nat} (h : j ≤ k) : m.returns j ≤ m.returns k := by
  induction j generalizing m k with
  | zero => exact Nat.zero_le _
  | succ j ih =>
    obtain ⟨k, rfl⟩ : ∃ l, k = l + 1 := ⟨k - 1, by omega⟩
    unfold returns
    split
    · exact Nat.le_refl 0
    · exact Nat.add_le_add_left (ih _ (Nat.le_of_succ_le_succ h)) _

/-- A run with cycles enough comes to the end it comes to. -/
theorem Steps.finishes {k budget : Nat} {m m₁ m₂ : Machine} {result : Except Fault Stop}
    (h : Steps k m m₁) (hb : m₁.atBreakpoint = false) (he : m₁.attempt = .ended m₂ result)
    (hbudget : k < budget) : Machine.runCycles budget m = (m₂, result) := by
  obtain ⟨left, rfl⟩ : ∃ left, budget = k + (left + 1) := ⟨budget - k - 1, by omega⟩
  rw [h.runCycles, runCycles_succ, hb, he]
  rfl

theorem SameBeyond.conclude {n : Nat} {m m' : Machine} (h : SameBeyond n m m')
    (result : Except Fault Stop) :
    SameBeyond n (Machine.conclude (m, result)).1 (Machine.conclude (m', result)).1 := by
  cases result with
  | error fault => exact ⟨h.data, h.registers, h.input, h.sink, h.outputs⟩
  | ok stop => exact ⟨h.data, h.registers, h.input, h.sink, h.outputs⟩

theorem run_ready (image : Image) (sink : Sink) (input : List Word) (budget : Nat) :
    (ready image sink input).run budget
      = conclude (runCycles budget (ready image sink input)) := rfl

theorem carries_ready (image : Image) (sink : Sink) (input : List Word) (n : Nat) :
    (ready image sink input).memory.Carries n image.wordAt where
  length := length_ready image sink input
  clear := hasBreakpoint_ready image sink input
  code := fun a _ => read_ready image sink input a

end Machine

namespace Peephole

open Machine

section

variable {p p' placed placed' : Program} {image image' : Image} {f : Nat → Nat}
  {m m' : Machine}

/-- The number of empty cells that the optimized program passes through where the program goes
    round a memory that it fills. -/
def detour (image image' : Image) : Nat :=
  if image.wordCount = maxMemory then image.wordCount - image'.wordCount else 0

/-- At the front of memory both programs are at their first statement. -/
theorem Optimized.at_front (h : Optimized p p' placed placed' image image' f)
    (hwords : 0 < image.wordCount) : At p p' placed placed' f 0 0 := by
  have hat := h.lead_at h.lead_zero
  rw [h.tracks.zero] at hat
  rcases hat with hat | ⟨hend, -⟩
  · exact hat
  · exact absurd hend (Nat.ne_of_lt hwords)

/-- Behind its last word the optimized program finds zeros, up to the end of memory. -/
theorem Optimized.reaches_front (h : Optimized p p' placed placed' image image' f)
    (halike : Like image image' m m') (hfull : image.wordCount = maxMemory)
    (hpc' : m'.pc = BitVec.ofNat 16 image'.wordCount) :
    m'.Reaches (maxMemory - image'.wordCount) 0 m'.registers m'.memory := by
  refine Machine.reaches_front halike.carries'.length halike.carries'.clear hpc'
    (hfull ▸ h.wordCount_le) fun a ha => ?_
  rw [halike.carries'.code a (hfull ▸ a.isLt)]
  exact Program.wordAt_eq_zero h.assembled' h.plain'.straight ha

/-- The second machine comes to a word of its program: at once, unless both programs are at their
    end, and the first machine is at the front again. -/
theorem Arrived.settles (harrived : Arrived p p' placed placed' image image' f m m')
    (h : Optimized p p' placed placed' image image' f) (hlow : m.pc.toNat < image.wordCount) :
    ∃ j m₁', Steps j m' m₁' ∧ Beside p p' placed placed' image image' f m m₁' ∧
      j ≤ (if m.pc = 0 then 1 else 0) * detour image image' := by
  obtain ⟨halike, i, hlead, hpc, hpc'⟩ := harrived
  rcases h.lead_at hlead with hat | ⟨hend, hend'⟩
  · exact ⟨0, m', .refl m', ⟨halike, _, _, hat, hpc, hpc'⟩, Nat.zero_le _⟩
  · rw [hend] at hpc
    rw [hend'] at hpc'
    -- the address behind the last word is below it only in a full memory
    have hfull : image.wordCount = maxMemory := by
      have hle := Program.offset_le_maxMemory h.assembled h.plain.straight i
      rw [hpc, BitVec.toNat_ofNat] at hlow
      unfold maxMemory at *
      omega
    have hfront : m.pc = 0 := by
      rw [hpc, hfull]
      rfl
    obtain ⟨m₁', hsteps, hmoved⟩ := h.reaches_front halike hfull hpc'
    have hstay : Moved m m.pc m.registers m.memory m := ⟨rfl, rfl, rfl, rfl, rfl, rfl⟩
    refine ⟨_, m₁', hsteps, ⟨halike.moved hstay hmoved, 0, 0, ?_, hfront, hmoved.pc⟩, ?_⟩
    · exact h.at_front (Nat.zero_lt_of_lt hlow)
    · rw [if_pos hfront, Nat.one_mul, detour, if_pos hfull, hfull]

/-! ## Rows of instructions -/

/-- **Keeping up.**  The second machine gets to where the first one is, with no more steps but for
    detours. -/
theorem Beside.steps {k : Nat} {m₁ : Machine} (hsteps : Steps k m m₁)
    (h : Optimized p p' placed placed' image image' f)
    (hconfined : ∀ j m₂, Steps j m m₂ → m₂.Confined image.wordCount)
    (hbeside : Beside p p' placed placed' image image' f m m') :
    ∃ j m₁', Steps j m' m₁' ∧ Beside p p' placed placed' image image' f m₁ m₁' ∧
      j ≤ k + m.returns k * detour image image' := by
  induction hsteps generalizing m' with
  | refl m => exact ⟨0, m', .refl m', hbeside, Nat.zero_le _⟩
  | @step k m m₁ m₂ hb hw _ ih =>
    have hfollows := hbeside.follows h (hconfined 0 m (.refl m))
    rw [hw] at hfollows
    cases hfollows with
    | @went _ m₁' j hj hsteps' hplace =>
      -- the second machine does the same, and then goes to a word of its program
      obtain ⟨d, m₂', hsettle, hbeside', hd⟩ : ∃ d m₂', Steps d m₁' m₂' ∧
          Beside p p' placed placed' image image' f m₁ m₂' ∧
          d ≤ (if m₁.pc = 0 then 1 else 0) * detour image image' := by
        rcases hplace with hbeside' | harrived
        · exact ⟨0, m₁', .refl m₁', hbeside', Nat.zero_le _⟩
        · exact harrived.settles h (hconfined 1 m₁ (.step hb hw (.refl m₁))).pc
      obtain ⟨r, m₃', hrest, hbeside'', hr⟩ :=
        ih (fun j m₂ hj => hconfined (j + 1) m₂ (.step hb hw hj)) hbeside'
      refine ⟨j + (d + r), m₃', hsteps'.trans (hsettle.trans hrest), hbeside'', ?_⟩
      have hreturns : m.returns (k + 1) = (if m₁.pc = 0 then 1 else 0) + m₁.returns k := by
        rw [returns, hw]
      rw [hreturns, Nat.add_mul]
      omega

theorem Optimized.beside_ready (h : Optimized p p' placed placed' image image' f) (sink : Sink)
    (input : List Word) (hwords : 0 < image.wordCount) :
    Beside p p' placed placed' image image' f (ready image sink input)
      (ready image' sink input) where
  alike := by
    refine ⟨⟨fun a ha => ?_, rfl, rfl, rfl, rfl⟩, carries_ready image sink input _,
      carries_ready image' sink input _⟩
    -- behind the first program there are no words
    rw [read_ready, read_ready, Program.wordAt_eq_zero h.assembled h.plain.straight ha,
      Program.wordAt_eq_zero h.assembled' h.plain'.straight (Nat.le_trans h.wordCount_le ha)]
  place := ⟨0, 0, h.at_front hwords, rfl, rfl⟩

end

/-! ## Runs -/

/-- **Runs of an optimized program.**  A plain program is run in the largest memory, and stays
    within its words but touches none of them.  If it comes to an end, the optimized program comes
    to the same end, with the same output, input left, registers, and memory behind the program.
    It takes no more cycles, but for a detour each time the program comes back to the front. -/
theorem optimize_runs (annotate : Bool) {p placed placed' : Program} {image image' : Image}
    (hp : p.Plain) (h : p.assemble maxMemory = (placed, .ok image))
    (h' : (optimize annotate p).1.assemble maxMemory = (placed', .ok image'))
    (sink : Sink) (input : List Word)
    (hconfined : ∀ k m, Steps k (ready image sink input) m → m.Confined image.wordCount)
    {budget : Nat} {m : Machine} {result : Except Fault Stop}
    (hrun : (ready image sink input).run budget = (m, result))
    (hresult : result ≠ .ok .cyclesExceeded) :
    ∃ m', (∀ budget', m.cycles + (ready image sink input).returns budget * detour image image'
        < budget' → (ready image' sink input).run budget' = (m', result)) ∧
      m'.cycles ≤ m.cycles + (ready image sink input).returns budget * detour image image' ∧
      SameBeyond image.wordCount m m' := by
  obtain ⟨f, htracks⟩ := optimize_tracks annotate p
  have hopt : Optimized p (optimize annotate p).1 placed placed' image image' f :=
    ⟨hp, (optimize_lineage annotate p).plain hp, htracks, h, h'⟩
  have hstart := hopt.beside_ready sink input
    (Nat.zero_lt_of_lt (hconfined 0 _ (.refl _)).pc)
  obtain ⟨k, m₁, hk, hsteps, hend⟩ := runCycles_ending budget (ready image sink input)
  obtain ⟨j, m₁', hsteps', hbeside, hj⟩ := hstart.steps hsteps hopt hconfined
  rw [run_ready] at hrun
  generalize runCycles budget (ready image sink input) = ran at hrun hend
  cases hend with
  | exhausted _ =>
    cases hrun
    exact absurd rfl hresult
  | breakpoint _ hb =>
    simp [Machine.atBreakpoint, hbeside.alike.carries.clear] at hb
  | @finished m₂ result₂ hleft hb he =>
    have hfollows := hbeside.follows hopt (hconfined k m₁ hsteps)
    rw [he] at hfollows
    cases hfollows with
    | @ended _ m₂' _ he' hlike hcycles =>
      have hm : m = (conclude (m₂, result₂)).1 := (congrArg Prod.fst hrun).symm
      have hsame : result = result₂ := (congrArg Prod.snd hrun).symm.trans (conclude_snd _)
      subst hm hsame
      -- both machines start with no cycles spent
      have hcount : m₁.cycles = 0 + k := hsteps.cycles
      have hcount' : m₁'.cycles = 0 + j := hsteps'.cycles
      have hspent := (attempt_ended he).cycles_ge
      have hextra := Nat.mul_le_mul_right (detour image image')
        ((ready image sink input).returns_mono hk)
      have hcycles₂ : (conclude (m₂, result)).1.cycles = m₂.cycles := conclude_cycles _
      have hcycles₂' : (conclude (m₂', result)).1.cycles = m₂'.cycles := conclude_cycles _
      rw [hcycles₂]
      refine ⟨(conclude (m₂', result)).1, fun budget' hbudget => ?_, ?_,
        hlike.toSameBeyond.conclude result⟩
      · rw [run_ready, hsteps'.finishes hbeside.alike.atBreakpoint he' (by omega)]
        exact Prod.ext rfl (conclude_snd _)
      · rw [hcycles₂']
        omega

/-! ## A program that goes round

    The program `lap` fills memory, and comes back to its first instruction,
    which fails for want of input.  Its branches can both go, though only one
    is ever executed, and with two empty cells to pass the optimized program
    comes back one cycle later. -/

/-- `add r0, r0, r0`, which does nothing. -/
def idle : Statement :=
  { op := some (.real (.math .add)), operands := ["r0", "r0", "r0"] }

/-- `in r0` -/
def reader : Statement :=
  { op := some (.real .input), operands := ["r0"] }

/-- `br &go` -/
def skip : Statement :=
  { op := some (.pseudo .br), operands := ["&go"] }

/-- `go: add r0, r0, r0` -/
def goal : Statement :=
  { idle with labels := ["go"] }

/-- A program that reads, branches past a branch, and then does nothing. -/
def lap (n : Nat) : Program :=
  [reader, skip, skip, goal] ++ List.replicate n idle

/-- `lap` without its branches. -/
def shortLap (n : Nat) : Program :=
  [reader, goal] ++ List.replicate n idle

/-- What holds of `idle` holds of any number of them. -/
theorem forall_mem_idle {P : Statement → Prop} {front : List Statement}
    (h : ∀ s ∈ front ++ [idle], P s) (n : Nat) : ∀ s ∈ front ++ List.replicate n idle, P s := by
  intro s hs
  rcases List.mem_append.mp hs with hs | hs
  · exact h s (List.mem_append_left _ hs)
  · rw [List.eq_of_mem_replicate hs]
    exact h idle (List.mem_append_right _ (List.mem_singleton_self idle))

theorem plain_lap (n : Nat) : (lap n).Plain :=
  forall_mem_idle (by decide +kernel) n

/-- The one word of each statement. -/
theorem emission?_lap :
    reader.emission?
        = some { word := (Instruction.ofRegisters .input rfl .zero .zero .zero).encode } ∧
    skip.emission?
        = some { word := (Instruction.ofImm8 (.branch .eq) rfl .zero 0).encode,
                 label := some "go" } ∧
    goal.emission? = some { word := 0 } ∧ idle.emission? = some { word := 0 } := by
  decide +kernel

theorem singles_lap (n : Nat) : (lap n).Singles := by
  obtain ⟨hreader, hskip, hgoal, hidle⟩ := emission?_lap
  refine forall_mem_idle ?_ n
  simp [hreader, hskip, hgoal, hidle]

theorem singles_shortLap (n : Nat) : (shortLap n).Singles := by
  obtain ⟨hreader, -, hgoal, hidle⟩ := emission?_lap
  refine forall_mem_idle ?_ n
  simp [hreader, hgoal, hidle]

/-- The second branch is unreachable, and without it the first one goes to the next statement. -/
theorem optimize_lap (n : Nat) : optimize false (lap n) = (shortLap n, 2) := by
  have hreader (before rest : List Statement) : reduce? false before reader rest = none :=
    reduce?_of_not_removable rfl false before rest
  have hbranch : branchTarget? skip = some "&go" := rfl
  have hunreachable (before rest : List Statement) :
      reduce? false before skip (skip :: goal :: rest)
        = some ⟨before, skip :: goal :: rest⟩ := by
    have hnext : goesToNext "&go" (some skip) = false := by decide
    show reduceBranch? false before skip (skip :: goal :: rest) = _
    unfold reduceBranch?
    simp only [hbranch, List.head?_cons, hnext, Bool.false_eq_true, if_false]
    rfl
  have hhop (before rest : List Statement) :
      reduce? false before skip (goal :: rest) = some ⟨before, goal :: rest⟩ := by
    have hnext : goesToNext "&go" (some goal) = true := by decide
    show reduceBranch? false before skip (goal :: rest) = _
    unfold reduceBranch?
    simp only [hbranch, List.head?_cons, hnext, if_true]
    rfl
  have hnormal : isNormal false [] (shortLap n) = true :=
    isNormal_of_not_removable (forall_mem_idle (by decide) n) false []
  have hsweep : sweep false (lap n) = (shortLap n, 2) := by
    show sweepFrom false 0 [] (reader :: skip :: skip :: goal :: List.replicate n idle) = _
    rw [sweepFrom_of_none (hreader _ _), sweepFrom_of_some (hunreachable _ _)]
    show sweepFrom false 1 [] (reader :: skip :: goal :: List.replicate n idle) = _
    rw [sweepFrom_of_none (hreader _ _), sweepFrom_of_some (hhop _ _)]
    exact sweepFrom_of_normal hnormal
  have hall := optimize_of_reduced hsweep
  rwa [optimize_of_normal hnormal] at hall

/-- The other statements wait for no label. -/
theorem label_of_mem_shortLap {n : Nat} {s : Statement} {e : Emission} (hs : s ∈ shortLap n)
    (he : s.emission? = some e) : e.label = none := by
  obtain ⟨hreader, -, hgoal, hidle⟩ := emission?_lap
  have hnone : ∀ s ∈ shortLap n, s.emission?.all (·.label.isNone) = true := by
    refine forall_mem_idle ?_ n
    simp [hreader, hgoal, hidle]
  have hs' := hnone s hs
  rw [he] at hs'
  exact Option.isNone_iff_eq_none.mp hs'

/-- The branches are statements 1 and 2. -/
theorem mem_shortLap {n i : Nat} {s : Statement} (hs : (lap n)[i]? = some s)
    (hi : i ≠ 1 ∧ i ≠ 2) : s ∈ shortLap n := by
  match i, hi, hs with
  | 0, _, hs =>
    cases hs
    exact List.mem_cons_self
  | 3, _, hs =>
    cases hs
    exact List.mem_cons_of_mem _ List.mem_cons_self
  | i + 4, _, hs => exact List.mem_append_right _ (List.mem_of_getElem? (i := i) hs)

theorem reaches_lap (n : Nat) : (lap n).Reaches := by
  intro i s e label hs he hlabel
  by_cases hi : i ≠ 1 ∧ i ≠ 2
  · rw [label_of_mem_shortLap (mem_shortLap hs hi) he] at hlabel
    cases hlabel
  · have hpatch : ∀ i, i = 1 ∨ i = 2 → ∃ word, Relocation.patch maxMemory (BitVec.ofNat 16 i)
        (Instruction.ofImm8 (.branch .eq) rfl .zero 0).encode 3 "go" = .ok word := by
      rintro i (rfl | rfl)
      · exact ⟨(Instruction.ofImm8 (.branch .eq) rfl .zero 1).encode, by decide⟩
      · exact ⟨(Instruction.ofImm8 (.branch .eq) rfl .zero 0).encode, by decide⟩
    have hi' : i = 1 ∨ i = 2 := by omega
    have hskip : s = skip := by
      rcases hi' with rfl | rfl <;> exact (Option.some.inj hs).symm
    subst hskip
    obtain rfl := Option.some.inj (he.symm.trans emission?_lap.2.1)
    obtain rfl : "go" = label := Option.some.inj hlabel
    obtain ⟨word, hword⟩ := hpatch i hi'
    exact ⟨3, goal, word, rfl, List.mem_singleton_self "go", hword⟩

theorem length_lap (n : Nat) : (lap n).length = n + 4 := by
  simp [lap]

theorem length_shortLap (n : Nat) : (shortLap n).length = n + 2 := by
  simp [shortLap]

theorem nodup_labels_idle (front : List Statement) (hfront : (front.flatMap (·.labels)).Nodup)
    (n : Nat) : ((front ++ List.replicate n idle).flatMap (·.labels)).Nodup := by
  have hnone : ∀ s ∈ [] ++ List.replicate n idle, s.labels = [] :=
    forall_mem_idle (by decide) n
  have hidle : (List.replicate n idle).flatMap (·.labels) = [] :=
    List.flatMap_eq_nil_iff.mpr hnone
  rwa [List.flatMap_append, hidle, List.append_nil]

theorem lap_assembles {n : Nat} (hn : n + 4 ≤ maxMemory) :
    ∃ placed image, (lap n).assemble maxMemory = (placed, .ok image) :=
  (singles_lap n).assembles (nodup_labels_idle _ (by decide) n) (by rwa [length_lap])
    (reaches_lap n)

theorem shortLap_assembles {n : Nat} (hn : n + 4 ≤ maxMemory) :
    ∃ placed image, (shortLap n).assemble maxMemory = (placed, .ok image) := by
  refine (singles_shortLap n).assembles (nodup_labels_idle _ (by decide) n)
    (by rw [length_shortLap]; omega) fun i s e label hs he hlabel => ?_
  rw [label_of_mem_shortLap (List.mem_of_getElem? hs) he] at hlabel
  cases hlabel

theorem emission?_idle (n : Nat) :
    ∀ s ∈ [goal] ++ List.replicate n idle, Statement.emission? s = some { word := 0 } := by
  obtain ⟨-, -, hgoal, hidle⟩ := emission?_lap
  refine forall_mem_idle ?_ n
  simp [hgoal, hidle]

section

variable {p placed : Program} {image : Image} {n : Nat}

theorem wordAt_lap (h : (lap n).assemble maxMemory = (placed, .ok image)) {a : Word}
    (ha : 3 ≤ a.toNat) : image.wordAt a = 0 :=
  (singles_lap n).wordAt_of_drop (k := 3) h (emission?_idle n) ha

theorem wordAt_shortLap (h : (shortLap n).assemble maxMemory = (placed, .ok image)) {a : Word}
    (ha : 1 ≤ a.toNat) : image.wordAt a = 0 :=
  (singles_shortLap n).wordAt_of_drop (k := 1) h (emission?_idle n) ha

theorem branchesAt_lap (h : (lap n).assemble maxMemory = (placed, .ok image)) {i : Nat}
    (hi : i = 1 ∨ i = 2) : image.BranchesAt (BitVec.ofNat 16 i) .eq .zero 3 := by
  have hoffset := ((singles_lap n).assembled h).1
  have hlength := length_lap n
  have hs : (lap n)[i]? = some skip := by
    rcases hi with rfl | rfl <;> rfl
  have hgo : (lap n)[3]? = some goal := rfl
  have hb : skip.branch? = some (.eq, "r0", "&go") := rfl
  have hl : Operand.parse "&go" = .ok (.label "go") := by decide +kernel
  obtain ⟨t, r, address, -, -, hr, haddress, hbranch⟩ := (plain_lap n).branchesAt h hs hb hl
  have hzero := Aliases.native_initial.register_zero
  cases hr.symm.trans hzero
  have hvalue := (plain_lap n).addressOf?_label h hgo (List.mem_singleton_self "go")
  rw [hoffset 3 (by omega)] at hvalue
  rw [hoffset i (by omega)] at hbranch
  cases haddress.symm.trans hvalue
  exact hbranch

/-- No word of the program is a load, a store or an output of text. -/
theorem quiet_lap (h : (lap n).assemble maxMemory = (placed, .ok image)) (a : Word) :
    ∃ i, Instruction.decode (image.wordAt a) = .ok i ∧ i.opcode.isQuiet = true := by
  have ha : a = BitVec.ofNat 16 a.toNat := by simp
  rcases Nat.lt_or_ge a.toNat 3 with hlt | hge
  · by_cases hzero : a.toNat = 0
    · rw [ha, hzero, (singles_lap n).wordAt h rfl emission?_lap.1]
      exact ⟨_, Instruction.decode_encode _, rfl⟩
    · obtain ⟨imm, -, hget⟩ := branchesAt_lap h (i := a.toNat) (by omega)
      rw [ha, Image.wordAt, hget]
      exact ⟨_, Instruction.decode_encode _, rfl⟩
  · rw [wordAt_lap h hge, zero_eq_encode]
    exact ⟨_, Instruction.decode_encode _, rfl⟩

end

section

variable {image : Image} {sink : Sink} {value : Word} {k : Nat}

/-- A program that reads at the front, and comes back there, ends for want of input. -/
theorem ends_of_round (hread : image.wordAt 0
      = (Instruction.ofRegisters .input rfl .zero .zero .zero).encode)
    (hround : ∀ m : Machine, m.pc = 1 → m.memory.Carries maxMemory image.wordAt →
      m.Reaches k 0 m.registers m.memory) :
    ∃ m, Steps (1 + k) (ready image sink [value]) m ∧ m.atBreakpoint = false ∧
      m.attempt = .ended m.start (.error .inputExhausted) := by
  have hcarries := carries_ready image sink [value] maxMemory
  have hfaces (m : Machine) (hpc : m.pc = 0) (hm : m.memory.Carries maxMemory image.wordAt) :
      m.Faces (.ofRegisters .input rfl .zero .zero .zero) := by
    refine ⟨?_, by simp [Machine.atBreakpoint, hm.clear]⟩
    rw [hpc, hm.code 0 (by decide), hread]
  obtain ⟨m₁, hfirst, hpc, -, hmemory, hinput⟩ :=
    (hfaces _ rfl hcarries).input (action_input _ .zero .zero .zero rfl) rfl
  rw [Memory.wrap_eq hcarries.length] at hpc
  rw [← hmemory] at hcarries
  obtain ⟨m₂, hrest, hmoved⟩ := hround m₁ hpc hcarries
  rw [← hmoved.memory] at hcarries
  have hback := hfaces m₂ hmoved.pc hcarries
  exact ⟨m₂, hfirst.trans hrest, hback.clear,
    hback.starves (action_input m₂ .zero .zero .zero rfl) (hmoved.input.trans hinput)⟩

end

section

variable {placed : Program} {image : Image} {n : Nat}

theorem ends_lap (h : (lap n).assemble maxMemory = (placed, .ok image)) (sink : Sink)
    (value : Word) :
    ∃ m, Steps 65535 (ready image sink [value]) m ∧ m.atBreakpoint = false ∧
      m.attempt = .ended m.start (.error .inputExhausted) := by
  refine ends_of_round (k := 65534) ((singles_lap n).wordAt (i := 0) h rfl emission?_lap.1)
    fun m hpc hcarries => ?_
  have hbranch := branchesAt_lap h (i := 1) (.inl rfl)
  rw [show BitVec.ofNat 16 1 = m.pc from hpc.symm] at hbranch
  obtain ⟨m₁, hsteps, hmoved⟩ := reaches_branch hcarries m.pc.isLt hbranch
  rw [if_pos (by rw [Machine.register, Registers.get_zero]; rfl)] at hmoved
  rw [← hmoved.memory] at hcarries
  have hrest := Machine.reaches_front (i := 3) hcarries.length hcarries.clear hmoved.pc (by decide)
    fun a ha => by rw [hcarries.code a a.isLt, wordAt_lap h ha]
  rw [hmoved.registers, hmoved.memory] at hrest
  exact hsteps.reaches hmoved hrest

theorem ends_shortLap (h : (shortLap n).assemble maxMemory = (placed, .ok image)) (sink : Sink)
    (value : Word) :
    ∃ m, Steps 65536 (ready image sink [value]) m ∧ m.atBreakpoint = false ∧
      m.attempt = .ended m.start (.error .inputExhausted) := by
  refine ends_of_round (k := 65535) ((singles_shortLap n).wordAt (i := 0) h rfl emission?_lap.1)
    fun m hpc hcarries => ?_
  exact Machine.reaches_front (i := 1) hcarries.length hcarries.clear hpc (by decide)
    fun a ha => by rw [hcarries.code a a.isLt, wordAt_shortLap h ha]

theorem confined_lap (h : (lap 65532).assemble maxMemory = (placed, .ok image)) (sink : Sink)
    (input : List Word) (k : Nat) (m : Machine) (hsteps : Steps k (ready image sink input) m) :
    m.Confined image.wordCount := by
  have hquiet := hsteps.quiet (fun a => read_ready image sink input a) (quiet_lap h)
  rw [(singles_lap 65532).wordCount h, length_lap]
  refine ⟨m.pc.isLt, ?_⟩
  rw [hquiet.2]
  exact List.forall_mem_nil _

theorem run_lap (h : (lap n).assemble maxMemory = (placed, .ok image)) (sink : Sink)
    (value : Word) :
    ∃ m, (ready image sink [value]).run 65536 = (m, .error .inputExhausted) ∧
      m.cycles = 65535 := by
  obtain ⟨m, hsteps, hb, he⟩ := ends_lap h sink value
  refine ⟨(conclude (m.start, .error .inputExhausted)).1, ?_, ?_⟩
  · rw [run_ready, hsteps.finishes hb he (by decide)]
    rfl
  · rw [conclude_cycles]
    exact hsteps.cycles.trans (Nat.zero_add _)

theorem run_shortLap (h : (shortLap n).assemble maxMemory = (placed, .ok image)) (sink : Sink)
    (value : Word) : ((ready image sink [value]).run 65536).2 = .ok .cyclesExceeded := by
  obtain ⟨m, hsteps, -, -⟩ := ends_shortLap h sink value
  have hrun := hsteps.runCycles 0
  rw [Nat.add_zero, runCycles_zero] at hrun
  rw [run_ready, conclude_snd, hrun]

end

theorem optimize_runs_lap :
    ∃ placed placed' image image' m m',
      (lap 65532).assemble maxMemory = (placed, .ok image) ∧
      (optimize false (lap 65532)).1.assemble maxMemory = (placed', .ok image') ∧
      (ready image .keep [0]).run 65536 = (m, .error .inputExhausted) ∧
      (∀ budget', m.cycles + (ready image .keep [0]).returns 65536 * detour image image'
        < budget' → (ready image' .keep [0]).run budget' = (m', .error .inputExhausted)) ∧
      m'.cycles ≤ m.cycles + (ready image .keep [0]).returns 65536 * detour image image' ∧
      SameBeyond image.wordCount m m' := by
  obtain ⟨placed, image, h⟩ := lap_assembles (n := 65532) (by decide)
  obtain ⟨placed', image', h'⟩ := shortLap_assembles (n := 65532) (by decide)
  obtain ⟨m, hrun, -⟩ := run_lap h .keep 0
  have h'' : (optimize false (lap 65532)).1.assemble maxMemory = (placed', .ok image') := by
    rw [optimize_lap]
    exact h'
  obtain ⟨m', hsame⟩ := optimize_runs false (plain_lap 65532) h h'' .keep [0]
    (confined_lap h .keep [0]) hrun nofun
  exact ⟨placed, placed', image, image', m, m', h, h'', hrun, hsame⟩

/-- With as many cycles as the program is done in, and one more, the optimized one is not. -/
theorem optimize_takes_longer :
    ∃ placed placed' image image',
      (lap 65532).Plain ∧ (lap 65532).assemble maxMemory = (placed, .ok image) ∧
      (optimize false (lap 65532)).1.assemble maxMemory = (placed', .ok image') ∧
      (∀ k m, Steps k (ready image .keep [0]) m → m.Confined image.wordCount) ∧
      ((ready image .keep [0]).run 65536).2 = .error .inputExhausted ∧
      ((ready image .keep [0]).run 65536).1.cycles = 65535 ∧
      ((ready image' .keep [0]).run 65536).2 = .ok .cyclesExceeded := by
  obtain ⟨placed, image, h⟩ := lap_assembles (n := 65532) (by decide)
  obtain ⟨placed', image', h'⟩ := shortLap_assembles (n := 65532) (by decide)
  obtain ⟨m, hrun, hcycles⟩ := run_lap h .keep 0
  refine ⟨placed, placed', image, image', plain_lap _, h, ?_, confined_lap h .keep [0], ?_, ?_,
    run_shortLap h' .keep 0⟩
  · rw [optimize_lap]
    exact h'
  · rw [hrun]
  · rw [hrun]
    exact hcycles

end Peephole

end AnnaToolchain
