import AnnaToolchain.Proofs.Machine.Loading
import AnnaToolchain.Proofs.Peephole.Leads

/-! # Programs side by side

    A plain program and the optimized one are in two machines, which run
    side by side (`Beside`).  An instruction of the first machine is one of
    the second, or it is a branch that has gone, and the second machine is
    already where it goes (`Beside.follows`). -/

namespace AnnaToolchain.Peephole

open Machine

/-! ## Machines that run side by side -/

section

variable (p p' placed placed' : Program) (image image' : Image) (f : Nat → Nat)

/-- The machines are alike but for their programs. -/
abbrev Like (m m' : Machine) : Prop :=
  Alike image.wordCount image.wordAt image'.wordAt m m'

/-- The machines are alike, and at places that correspond. -/
structure Beside (m m' : Machine) : Prop where
  alike : Like image image' m m'
  place : ∃ a a', At p p' placed placed' f a a' ∧
    m.pc = BitVec.ofNat 16 a ∧ m'.pc = BitVec.ofNat 16 a'

/-- The machines are alike, and come to a statement. -/
structure Arrived (m m' : Machine) : Prop where
  alike : Like image image' m m'
  place : ∃ i, Lead p p' f i ∧ m.pc = BitVec.ofNat 16 (placed.offset i) ∧
    m'.pc = BitVec.ofNat 16 (placed'.offset (f i))

/-- What the second machine does while the first one attempts an instruction. -/
inductive Follows (m m' : Machine) : Cycle → Prop
  | ended {m₁ m₁' : Machine} {result : Except Fault Stop} (he : m'.attempt = .ended m₁' result)
      (h : Like image image' m₁ m₁') (hcycles : m₁'.cycles + m.cycles = m₁.cycles + m'.cycles) :
      Follows m m' (.ended m₁ result)
  | went {m₁ m₁' : Machine} {j : Nat} (hj : j ≤ 1) (hsteps : Steps j m' m₁')
      (h : Beside p p' placed placed' image image' f m₁ m₁' ∨
        Arrived p p' placed placed' image image' f m₁ m₁') : Follows m m' (.went m₁)

end

/-- A single step is an attempt that goes on. -/
theorem attempt_of_steps {m m₁ : Machine} (h : Steps 1 m m₁) : m.attempt = .went m₁ := by
  cases h with
  | step _ hw rest =>
    cases rest
    exact hw

/-- A branch goes to its target or on behind itself. -/
theorem reaches_branch {image : Image} {m : Machine} {n : Nat} {cond : Condition} {r : Register}
    {target : Word} (hcarries : m.memory.Carries n image.wordAt) (hpc : m.pc.toNat < n)
    (hb : image.BranchesAt m.pc cond r target) :
    m.Reaches 1 (if cond.holds (m.register r).toInt then target else m.pc + 1) m.registers
      m.memory := by
  obtain ⟨imm, htarget, hget⟩ := hb
  have hfaces : m.Faces (.ofImm8 (.branch cond) rfl r imm) := by
    refine ⟨?_, by simp [Machine.atBreakpoint, hcarries.clear]⟩
    rw [hcarries.code m.pc hpc, Image.wordAt, hget, Option.getD_some]
  have hgoto := hfaces.goto (action_branch m r cond rfl imm)
  rwa [Memory.wrap_eq hcarries.length, htarget] at hgoto

/-- An unconditional branch is taken. -/
theorem holds_of_branchTarget? {s : Statement} {target target' rd : String} {cond : Condition}
    {r : Register} (htarget : branchTarget? s = some target)
    (hb : s.branch? = some (cond, rd, target')) (hr : Aliases.initial.register rd = .ok r)
    (m : Machine) : cond.holds (m.register r).toInt = true := by
  obtain ⟨rd', hb', hsame⟩ := branch?_of_branchTarget? htarget
  cases hb.symm.trans hb'
  cases hr.symm.trans (register_of_sameRegister Aliases.native_initial hsame)
  rw [Machine.register, Registers.get_zero]
  rfl

section

variable {p p' placed placed' : Program} {image image' : Image} {f : Nat → Nat}
  {m m' : Machine} {i k : Nat} {s t : Statement}

/-- The words of the optimized program are where the program has words, too. -/
theorem Optimized.below (h : Optimized p p' placed placed' image image' f) {a word : Word}
    (hget : image'.get? a = some word) : a.toNat < image.wordCount := by
  refine Nat.lt_of_lt_of_le ?_ h.wordCount_le
  rw [← Program.isSome_get?_of_straight h.assembled' h.plain'.straight, hget]
  rfl

/-! ## One instruction -/

/-- At a word that is no branch both machines execute the same instruction. -/
theorem follows_word (h : Optimized p p' placed placed' image image' f)
    (halike : Like image image' m m') (hconfined : m.Confined image.wordCount)
    (hkept : Kept p p' f i s) (ht : placed[i]? = some t) (hk : k < t.words.length)
    (hpc : m.pc = BitVec.ofNat 16 (placed.offset i + k))
    (hpc' : m'.pc = BitVec.ofNat 16 (placed'.offset (f i) + k)) (hb : s.branch? = none) :
    Follows p p' placed placed' image image' f m m' m.attempt := by
  obtain ⟨u, t', hu, ht', hlength, hwords⟩ := h.words_of_kept hkept
  cases ht.symm.trans hu
  obtain ⟨ins, hjump, hget, hget'⟩ := hwords hb k hk
  rw [← hpc] at hget
  rw [← hpc'] at hget'
  have hd : Instruction.decode (m.memory.read m.pc) = .ok ins := by
    rw [halike.carries.code m.pc hconfined.pc, Image.wordAt, hget]
    exact ins.decode_encode
  have hd' : Instruction.decode (m'.memory.read m'.pc) = .ok ins := by
    rw [halike.carries'.code m'.pc (h.below hget'), Image.wordAt, hget']
    exact ins.decode_encode
  have hinStep := halike.attempt_inStep hd hd' hjump hconfined.touches
  generalize hattempt : m.attempt = cycle, hattempt' : m'.attempt = cycle' at hinStep
  cases hinStep with
  | ended hlike hcycles => exact .ended hattempt' hlike hcycles
  | @went m₁ m₁' hlike hnext hnext' =>
    refine .went (Nat.le_refl 1) (.step halike.atBreakpoint hattempt' (.refl m₁')) ?_
    rw [hpc] at hnext
    rw [hpc'] at hnext'
    by_cases hmore : k + 1 < t.words.length
    · -- to the next word of the statement
      refine .inl ⟨hlike, _, _, .kept hkept ht hmore rfl rfl, ?_, ?_⟩
      · rw [hnext, ← Nat.add_assoc, Word.ofNat_add_one]
      · rw [hnext', ← Nat.add_assoc, Word.ofNat_add_one]
    · -- to the next statement
      have hlast : t.words.length = k + 1 := by omega
      refine .inr ⟨hlike, i + 1,
        h.lead_succ hkept.here (branchTarget?_of_branch?_eq_none hb), ?_, ?_⟩
      · rw [hnext, Program.offset_succ ht, hlast, ← Nat.add_assoc, Word.ofNat_add_one]
      · rw [hnext', hkept.next, Program.offset_succ ht', hlength, hlast, ← Nat.add_assoc,
          Word.ofNat_add_one]

/-- At a branch that is still there both machines branch, or neither. -/
theorem follows_branch (h : Optimized p p' placed placed' image image' f)
    (halike : Like image image' m m') (hlow : m.pc.toNat < image.wordCount)
    (hkept : Kept p p' f i s) (hpc : m.pc = BitVec.ofNat 16 (placed.offset i))
    (hpc' : m'.pc = BitVec.ofNat 16 (placed'.offset (f i))) {cond : Condition}
    {rd target : String} (hb : s.branch? = some (cond, rd, target)) :
    Follows p p' placed placed' image image' f m m' m.attempt := by
  obtain ⟨label, hl⟩ := Statement.target_of_isPlain (h.plain s (List.mem_of_getElem? hkept.here)) hb
  obtain ⟨s', hs', hop, hoperands⟩ := hkept.there
  have hb' := (Statement.branch?_congr hop hoperands).trans hb
  obtain ⟨t, r, address, ht, hone, hr, haddress, hbranch⟩ :=
    h.plain.branchesAt h.assembled hkept.here hb hl
  obtain ⟨t', r', address', ht', hone', hr', haddress', hbranch'⟩ :=
    h.plain'.branchesAt h.assembled' hs' hb' hl
  cases hr.symm.trans hr'
  rw [← hpc] at hbranch
  rw [← hpc'] at hbranch'
  have hlow' : m'.pc.toNat < image.wordCount := by
    obtain ⟨_, -, hget'⟩ := hbranch'
    exact h.below hget'
  obtain ⟨m₁, hsteps, hmoved⟩ := reaches_branch halike.carries hlow hbranch
  obtain ⟨m₁', hsteps', hmoved'⟩ := reaches_branch halike.carries' hlow' hbranch'
  have hregister : m'.register r = m.register r := congrArg (·.get r) halike.registers
  have hnext := hmoved.pc
  have hnext' := hmoved'.pc
  rw [hregister] at hnext'
  rw [attempt_of_steps hsteps]
  refine .went (Nat.le_refl 1) hsteps' (.inr ⟨halike.moved hmoved hmoved', ?_⟩)
  by_cases htaken : cond.holds (m.register r).toInt = true
  · obtain ⟨j, hlead, ha, ha'⟩ := h.lead_of_label haddress haddress'
    rw [if_pos htaken, ha] at hnext
    rw [if_pos htaken, ha'] at hnext'
    exact ⟨j, hlead, hnext, hnext'⟩
  · -- the branch is conditional, and goes on behind itself
    have hconditional : branchTarget? s = none := by
      cases htarget : branchTarget? s with
      | none => rfl
      | some target' => exact absurd (holds_of_branchTarget? htarget hb hr m) htaken
    rw [if_neg htaken, hpc] at hnext
    rw [if_neg htaken, hpc'] at hnext'
    refine ⟨i + 1, h.lead_succ hkept.here hconditional, ?_, ?_⟩
    · rw [hnext, Program.offset_succ ht, hone, Word.ofNat_add_one]
    · rw [hnext', hkept.next, Program.offset_succ ht', hone', Word.ofNat_add_one]

/-- At a branch that has gone the second machine is where it goes. -/
theorem follows_hop (h : Optimized p p' placed placed' image image' f)
    (halike : Like image image' m m') (hlow : m.pc.toNat < image.wordCount)
    (hhops : Hops p p' f i s) (hpc : m.pc = BitVec.ofNat 16 (placed.offset i))
    (hpc' : m'.pc = BitVec.ofNat 16 (placed'.offset (f i))) :
    Follows p p' placed placed' image image' f m m' m.attempt := by
  obtain ⟨target, label, s', htarget, hlabel, hs', hmem⟩ := hhops.there
  obtain ⟨rd, hb, -⟩ := branch?_of_branchTarget? htarget
  obtain ⟨name, hl⟩ := Statement.target_of_isPlain (h.plain s (List.mem_of_getElem? hhops.here)) hb
  cases hlabel.symm.trans (targetLabel?_of_parse hl)
  obtain ⟨t, r, address, ht, hone, hr, haddress, hbranch⟩ :=
    h.plain.branchesAt h.assembled hhops.here hb hl
  rw [← hpc] at hbranch
  obtain ⟨m₁, hsteps, hmoved⟩ := reaches_branch halike.carries hlow hbranch
  have hnext := hmoved.pc
  obtain ⟨k, hlead, ha, ha'⟩ := h.lead_of_label haddress
    (h.plain'.addressOf?_label h.assembled' hs' hmem)
  rw [if_pos (holds_of_branchTarget? htarget hb hr m), ha] at hnext
  rw [attempt_of_steps hsteps]
  have hstay : Moved m' m'.pc m'.registers m'.memory m' := ⟨rfl, rfl, rfl, rfl, rfl, rfl⟩
  exact .went (Nat.zero_le 1) (.refl m')
    (.inr ⟨halike.moved hmoved hstay, k, hlead, hnext, hpc'.trans ha'⟩)

/-- **One instruction.**  What the first machine does, the second one does, in as many steps or
    without any. -/
theorem Beside.follows (hbeside : Beside p p' placed placed' image image' f m m')
    (h : Optimized p p' placed placed' image image' f) (hconfined : m.Confined image.wordCount) :
    Follows p p' placed placed' image image' f m m' m.attempt := by
  obtain ⟨a, a', hat, hpc, hpc'⟩ := hbeside.place
  cases hat with
  | hop hhops ha ha' =>
    subst ha ha'
    exact follows_hop h hbeside.alike hconfined.pc hhops hpc hpc'
  | @kept i k s t hkept ht hk ha ha' =>
    subst ha ha'
    cases hb : s.branch? with
    | none => exact follows_word h hbeside.alike hconfined hkept ht hk hpc hpc' hb
    | some branch =>
      obtain ⟨cond, rd, target⟩ := branch
      -- a branch has no second word
      obtain ⟨label, hl⟩ :=
        Statement.target_of_isPlain (h.plain s (List.mem_of_getElem? hkept.here)) hb
      obtain ⟨u, -, -, hu, hone, -⟩ := h.plain.branchesAt h.assembled hkept.here hb hl
      cases ht.symm.trans hu
      obtain rfl : k = 0 := by omega
      exact follows_branch h hbeside.alike hconfined.pc hkept hpc hpc' hb

end

end AnnaToolchain.Peephole
