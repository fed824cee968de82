import AnnaToolchain.Proofs.Assembly.Plain
import AnnaToolchain.Proofs.Peephole.Positions
import AnnaToolchain.Proofs.Token.Reference

/-! # Where an optimized program goes on

    A plain program can come to a statement only from the front, past a
    statement that is no unconditional branch, or by a label.  In each case
    the optimized program has a place to go on as well (`Lead`): the
    statement itself, or the one that a branch would have gone to that is no
    longer there.  By address, that is a word of a statement that both
    programs have, the branch, or the end (`Optimized.lead_at`). -/

namespace AnnaToolchain.Peephole

/-! ## Plain statements -/

section

variable {s : Statement} {target : String}

theorem pushOperands?_of_isPlain (h : s.isPlain = true) : pushOperands? s = none := by
  unfold pushOperands?
  split
  · next hop _ => simp [Statement.isPlain, Pseudo.isPlain, hop] at h
  · rfl

theorem popOperands?_of_isPlain (h : s.isPlain = true) : popOperands? s = none := by
  unfold popOperands?
  split
  · next hop _ => simp [Statement.isPlain, Pseudo.isPlain, hop] at h
  · rfl

/-- Of plain statements only unconditional branches may go. -/
theorem isRemovable_of_isPlain (h : s.isPlain = true) :
    isRemovable s = (branchTarget? s).isSome := by
  unfold isRemovable
  rw [pushOperands?_of_isPlain h, popOperands?_of_isPlain h]
  rfl

theorem branch?_of_branchTarget? (h : branchTarget? s = some target) :
    ∃ rd, s.branch? = some (.eq, rd, target) ∧ sameRegister rd "r0" = true := by
  unfold branchTarget? at h
  split at h
  · next hop hargs =>
    cases h
    exact ⟨"r0", by simp [Statement.branch?, hop, hargs], by decide +kernel⟩
  · next rd target hop hargs =>
    split at h
    · next hsame =>
      cases h
      exact ⟨rd, by simp [Statement.branch?, hop, hargs], hsame⟩
    · cases h
  · cases h

theorem branchTarget?_of_branch?_eq_none (h : s.branch? = none) : branchTarget? s = none := by
  cases htarget : branchTarget? s with
  | none => rfl
  | some target =>
    obtain ⟨rd, hb, -⟩ := branch?_of_branchTarget? htarget
    rw [h] at hb
    cases hb

/-- What the optimizer takes for `r0` is `r0`. -/
theorem register_of_sameRegister {aliases : Aliases} (hn : aliases.Native) {rd : String}
    (h : sameRegister rd "r0" = true) : aliases.register rd = .ok .zero := by
  have hname : (Text.trim rd).toLower = Register.zero.name :=
    (beq_iff_eq.mp h).trans (by decide +kernel)
  unfold Aliases.register
  rw [hname, hn]

end

/-- Nothing else than plain statements comes from a plain program. -/
theorem Lineage.plain {b : Before} {carried : List String} {p p' : Program}
    (h : Lineage b carried p p') (hp : p.Plain) : p'.Plain := by
  induction h with
  | nil => exact hp
  | @loose b carried s' ss' _ hop _ _ ih =>
    refine List.forall_mem_cons.mpr ⟨?_, ih hp⟩
    unfold Statement.isPlain
    rw [hop]
  | kept _ hop hoperands _ _ _ ih =>
    obtain ⟨hs, hss⟩ := List.forall_mem_cons.mp hp
    exact List.forall_mem_cons.mpr ⟨(Statement.isPlain_congr hop hoperands).trans hs, ih hss⟩
  | replaced _ hpush _ _ _ _ _ =>
    rw [pushOperands?_of_isPlain (List.forall_mem_cons.mp hp).1] at hpush
    cases hpush
  | gone _ _ _ ih => exact ih (List.forall_mem_cons.mp hp).2
  | reloaded _ _ _ ih => exact ih (List.forall_mem_cons.mp hp).2

/-! ## Statements that are come to -/

/-- Statement number `i` of the program is still there. -/
structure Kept (p p' : Program) (f : Nat → Nat) (i : Nat) (s : Statement) : Prop where
  here : p[i]? = some s
  there : ∃ s', p'[f i]? = some s' ∧ s'.op = s.op ∧ s'.operands = s.operands
  next : f (i + 1) = f i + 1

/-- Statement number `i` of the program branched to the one that is there instead. -/
structure Hops (p p' : Program) (f : Nat → Nat) (i : Nat) (s : Statement) : Prop where
  here : p[i]? = some s
  there : ∃ target label s', branchTarget? s = some target ∧ targetLabel? target = some label ∧
    p'[f i]? = some s' ∧ label ∈ s'.labels

/-- Where the optimized program goes on when the program comes to statement number `i`. -/
inductive Lead (p p' : Program) (f : Nat → Nat) (i : Nat) : Prop
  | kept {s : Statement} (h : Kept p p' f i s)
  | hop {s : Statement} (h : Hops p p' f i s)
  | done (h : i = p.length)

/-- A plain program and the optimized one, both assembled. -/
structure Optimized (p p' placed placed' : Program) (image image' : Image) (f : Nat → Nat) :
    Prop where
  plain : p.Plain
  plain' : p'.Plain
  tracks : Tracks .anything p p' f
  assembled : p.assemble maxMemory = (placed, .ok image)
  assembled' : p'.assemble maxMemory = (placed', .ok image')

namespace Optimized

variable {p p' placed placed' : Program} {image image' : Image} {f : Nat → Nat} {i : Nat}
  {s : Statement}

/-- A statement is come to unless it has gone for being out of reach. -/
theorem lead_of_fate (h : Optimized p p' placed placed' image image' f) (hs : p[i]? = some s)
    (hreach : s.labels ≠ [] ∨ Before.anything.past (p.take i) = .anything) : Lead p p' f i := by
  have hplain := h.plain s (List.mem_of_getElem? hs)
  cases h.tracks.fate i s hs with
  | kept hget hop hoperands _ hnext => exact .kept ⟨hs, ⟨_, hget, hop, hoperands⟩, hnext⟩
  | replaced _ hpush _ _ _ =>
    rw [pushOperands?_of_isPlain hplain] at hpush
    cases hpush
  | gone why _ =>
    cases why with
    | stack hstack =>
      rw [pushOperands?_of_isPlain hplain, popOperands?_of_isPlain hplain] at hstack
      cases hstack
    | hop htarget hlabel hnext hmem =>
      rw [List.head?_drop] at hnext
      exact .hop ⟨hs, _, _, _, htarget, hlabel, hnext, hmem⟩
    | step htarget hnumber =>
      -- a branch by distance is not plain
      obtain ⟨rd, hb, -⟩ := branch?_of_branchTarget? htarget
      obtain ⟨label, hlabel⟩ := Statement.target_of_isPlain hplain hb
      rw [hlabel] at hnumber
      cases hnumber
    | unreachable _ hlabels hbefore =>
      rcases hreach with hreach | hreach
      · exact absurd hlabels hreach
      · exact absurd hreach hbefore

theorem lead_zero (h : Optimized p p' placed placed' image image' f) : Lead p p' f 0 := by
  cases hs : p[0]? with
  | none => exact .done (Nat.le_zero.mp (List.getElem?_eq_none_iff.mp hs)).symm
  | some s => exact h.lead_of_fate hs (.inr rfl)

/-- Behind a statement that is no unconditional branch. -/
theorem lead_succ (h : Optimized p p' placed placed' image image' f) (hs : p[i]? = some s)
    (hbranch : branchTarget? s = none) : Lead p p' f (i + 1) := by
  cases hnext : p[i + 1]? with
  | none =>
    have hlength := List.getElem?_eq_none_iff.mp hnext
    have hlt := (List.getElem?_eq_some_iff.mp hs).1
    exact .done (by omega)
  | some next =>
    have hstays : isRemovable s = false := by
      rw [isRemovable_of_isPlain (h.plain s (List.mem_of_getElem? hs)), hbranch]
      rfl
    have hafter : Before.after s = .anything := by
      unfold Before.after
      rw [hstays]
      rfl
    refine h.lead_of_fate hnext (.inr ?_)
    unfold Before.past
    rw [List.take_add_one, hs, Option.toList_some, List.foldl_append]
    exact hafter

/-- A label leads to a statement that is come to, in both programs. -/
theorem lead_of_label (h : Optimized p p' placed placed' image image' f) {label : String}
    {address address' : Word} (ha : image.symbols.addressOf? label = some address)
    (ha' : image'.symbols.addressOf? label = some address') :
    ∃ k, Lead p p' f k ∧ address = BitVec.ofNat 16 (placed.offset k) ∧
      address' = BitVec.ofNat 16 (placed'.offset (f k)) := by
  have hdefined : label ∈ p.flatMap (·.labels) := by
    rw [← Program.isSome_addressOf?_assemble h.assembled, ha]
    rfl
  obtain ⟨s, hmem, hlabel⟩ := List.mem_flatMap.mp hdefined
  obtain ⟨k, hs⟩ := List.mem_iff_getElem?.mp hmem
  obtain ⟨s', hs', hlabel'⟩ := h.tracks.labels k s hs label hlabel
  refine ⟨k, h.lead_of_fate hs (.inl (List.ne_nil_of_mem hlabel)), ?_, ?_⟩
  · exact Option.some.inj (ha.symm.trans (h.plain.addressOf?_label h.assembled hs hlabel))
  · exact Option.some.inj (ha'.symm.trans (h.plain'.addressOf?_label h.assembled' hs' hlabel'))

/-! ## Words of statements that are still there -/

/-- A statement that is still there has as many words, and the same ones if it is no branch. -/
theorem words_of_kept (h : Optimized p p' placed placed' image image' f)
    (hkept : Kept p p' f i s) :
    ∃ t t', placed[i]? = some t ∧ placed'[f i]? = some t' ∧
      t'.words.length = t.words.length ∧
      (s.branch? = none → ∀ k, k < t.words.length → ∃ ins : Instruction,
        ins.opcode.isJump = false ∧
        image.get? (BitVec.ofNat 16 (placed.offset i + k)) = some ins.encode ∧
        image'.get? (BitVec.ofNat 16 (placed'.offset (f i) + k)) = some ins.encode) := by
  obtain ⟨s', hs', hop, hoperands⟩ := hkept.there
  obtain ⟨t, ht, hsame⟩ := Program.getElem?_assemble h.assembled hkept.here
  obtain ⟨t', ht', hsame'⟩ := Program.getElem?_assemble h.assembled' hs'
  have hplain := h.plain s (List.mem_of_getElem? hkept.here)
  have hop' : t'.op = t.op := by rw [hsame'.op, hop, hsame.op]
  have hoperands' : t'.operands = t.operands := by
    rw [hsame'.operands, hoperands, hsame.operands]
  refine ⟨t, t', ht, ht', ?_⟩
  cases hb : s.branch? with
  | some branch =>
    obtain ⟨cond, rd, target⟩ := branch
    obtain ⟨label, hl⟩ := Statement.target_of_isPlain hplain hb
    have hb' := (Statement.branch?_congr hop hoperands).trans hb
    obtain ⟨u, -, -, hu, hlength, -⟩ := h.plain.branchesAt h.assembled hkept.here hb hl
    obtain ⟨u', -, -, hu', hlength', -⟩ := h.plain'.branchesAt h.assembled' hs' hb' hl
    cases ht.symm.trans hu
    cases ht'.symm.trans hu'
    exact ⟨hlength'.trans hlength.symm, nofun⟩
  | none =>
    -- both statements ask for the same words
    have hbt : t.branch? = none := (Statement.branch?_congr hsame.op hsame.operands).trans hb
    have hpt : t.isPlain = true := (Statement.isPlain_congr hsame.op hsame.operands).trans hplain
    obtain ⟨es, heffect, hlength, hwords⟩ := h.plain.words_fixed h.assembled ht hpt hbt
    obtain ⟨es', heffect', hlength', hwords'⟩ := h.plain'.words_fixed h.assembled' ht'
      ((Statement.isPlain_congr hop' hoperands').trans hpt)
      ((Statement.branch?_congr hop' hoperands').trans hbt)
    rw [Effect.ofStatement_eq (Statement.isDirective_of_isPlain hpt) hop' hoperands',
      heffect] at heffect'
    cases heffect'
    refine ⟨hlength'.trans hlength.symm, fun _ k hk => ?_⟩
    obtain ⟨e, he⟩ : ∃ e, es[k]? = some e := ⟨_, List.getElem?_eq_getElem (hlength ▸ hk)⟩
    obtain ⟨ins, hword, hjump, hget⟩ := hwords k e he
    obtain ⟨ins', hword', -, hget'⟩ := hwords' k e he
    cases Instruction.eq_of_encode (hword.symm.trans hword')
    exact ⟨ins, hjump, hget, hget'⟩

/-- Behind the last statement that comes from the program there are no words. -/
theorem offset_end (h : Optimized p p' placed placed' image image' f) :
    placed.offset p.length = image.wordCount ∧
      placed'.offset (f p.length) = image'.wordCount := by
  have hlength := (Program.sameCode_assemble h.assembled).length_eq
  have hlength' := (Program.sameCode_assemble h.assembled').length_eq
  rw [Program.wordCount_of_straight h.assembled h.plain.straight,
    Program.wordCount_of_straight h.assembled' h.plain'.straight, hlength]
  refine ⟨rfl, Program.offset_of_silent fun j t hj ht => ?_⟩
  have hlt := (List.getElem?_eq_some_iff.mp ht).1
  obtain ⟨t', ht', hsame⟩ := Program.getElem?_assemble h.assembled'
    (List.getElem?_eq_getElem (hlength' ▸ hlt))
  cases ht.symm.trans ht'
  refine Program.words_of_op_none h.assembled' ht (hsame.op.trans ?_)
  exact h.tracks.loose j _ (hlength ▸ hj) (List.getElem?_eq_getElem _)

/-- The optimized program has no more words before the place of a statement. -/
theorem offset_le (h : Optimized p p' placed placed' image image' f) (hi : i ≤ p.length) :
    placed'.offset (f i) ≤ placed.offset i := by
  induction i with
  | zero =>
    rw [h.tracks.zero]
    exact Nat.le_refl 0
  | succ i ih =>
    have hbefore := ih (Nat.le_of_succ_le hi)
    have hs := List.getElem?_eq_getElem (Nat.lt_of_succ_le hi)
    obtain ⟨t, ht, -⟩ := Program.getElem?_assemble h.assembled hs
    rw [Program.offset_succ ht]
    cases h.tracks.fate i _ hs with
    | kept hget hop hoperands _ hnext =>
      obtain ⟨u, t', hu, ht', hlength, -⟩ :=
        h.words_of_kept ⟨hs, ⟨_, hget, hop, hoperands⟩, hnext⟩
      cases ht.symm.trans hu
      rw [hnext, Program.offset_succ ht', hlength]
      exact Nat.add_le_add_right hbefore _
    | replaced _ hpush _ _ _ =>
      rw [pushOperands?_of_isPlain (h.plain _ (List.mem_of_getElem? hs))] at hpush
      cases hpush
    | gone _ hnext =>
      rw [hnext]
      exact Nat.le_trans hbefore (Nat.le_add_right _ _)

theorem wordCount_le (h : Optimized p p' placed placed' image image' f) :
    image'.wordCount ≤ image.wordCount := by
  obtain ⟨hend, hend'⟩ := h.offset_end
  rw [← hend, ← hend']
  exact h.offset_le (Nat.le_refl _)

end Optimized

/-! ## Places by address -/

/-- The program is at the address `a`, and the optimized one at `a'`. -/
inductive At (p p' placed placed' : Program) (f : Nat → Nat) (a a' : Nat) : Prop
  /-- Both are at a word of a statement that is still there. -/
  | kept {i k : Nat} {s t : Statement} (h : Kept p p' f i s) (ht : placed[i]? = some t)
      (hk : k < t.words.length) (ha : a = placed.offset i + k)
      (ha' : a' = placed'.offset (f i) + k)
  /-- The program is at a branch, and the optimized one is where it goes. -/
  | hop {i : Nat} {s : Statement} (h : Hops p p' f i s) (ha : a = placed.offset i)
      (ha' : a' = placed'.offset (f i))

/-- Where a statement is come to there is a word, unless there are no more words. -/
theorem Optimized.lead_at {p p' placed placed' : Program} {image image' : Image}
    {f : Nat → Nat} {i : Nat} (h : Optimized p p' placed placed' image image' f)
    (hlead : Lead p p' f i) :
    At p p' placed placed' f (placed.offset i) (placed'.offset (f i)) ∨
      (placed.offset i = image.wordCount ∧ placed'.offset (f i) = image'.wordCount) := by
  -- past loose statements, to the next one with words
  induction hd : p.length - i generalizing i with
  | zero =>
    cases hlead with
    | kept hkept =>
      have hlt := (List.getElem?_eq_some_iff.mp hkept.here).1
      omega
    | hop hhops => exact .inl (.hop hhops rfl rfl)
    | done hi =>
      rw [hi]
      exact .inr h.offset_end
  | succ d ih =>
    cases hlead with
    | hop hhops => exact .inl (.hop hhops rfl rfl)
    | done hi => omega
    | @kept s hkept =>
      obtain ⟨t, t', ht, ht', hlength, -⟩ := h.words_of_kept hkept
      by_cases hwords : 0 < t.words.length
      · exact .inl (.kept hkept ht hwords rfl rfl)
      · have hzero : t.words.length = 0 := Nat.eq_zero_of_not_pos hwords
        have hbranch : branchTarget? s = none := by
          cases htarget : branchTarget? s with
          | none => rfl
          | some target =>
            -- a branch would be a word
            obtain ⟨rd, hb, -⟩ := branch?_of_branchTarget? htarget
            obtain ⟨label, hl⟩ :=
              Statement.target_of_isPlain (h.plain s (List.mem_of_getElem? hkept.here)) hb
            obtain ⟨u, -, -, hu, hone, -⟩ := h.plain.branchesAt h.assembled hkept.here hb hl
            cases ht.symm.trans hu
            omega
        have hnext := ih (h.lead_succ hkept.here hbranch) (by omega)
        rw [Program.offset_succ ht, hkept.next, Program.offset_succ ht', hlength, hzero] at hnext
        exact hnext

end AnnaToolchain.Peephole
