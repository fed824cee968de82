import AnnaToolchain.Proofs.Peephole.Reduction
import Mathlib.Data.List.Forall2

/-! # Where statements come from

    Statement by statement, an optimized program comes from the program it
    was made of (`Lineage`): a statement is kept, or it is a `mov` in the
    place of a `push`, or it has gone.  The labels of what has gone are
    carried on to the next statement that has not.

    One reduction gives such a lineage (`Reduction.lineage`), and lineages
    are composed (`Lineage.trans`), so that an optimized program has one
    (`optimize_lineage`). -/

namespace AnnaToolchain.Peephole

/-! ## Statements that may go -/

/-- A `push`, a `pop` or an unconditional branch. -/
def isRemovable (s : Statement) : Bool :=
  (pushOperands? s).isSome || (popOperands? s).isSome || (branchTarget? s).isSome

/-- What is known of the statements before a place. -/
inductive Before where
  /-- Nothing. -/
  | anything
  /-- The last of them is one that may go. -/
  | removable
  /-- All statements since a `push` that became a `mov` to `value` have gone. -/
  | spilled (value : String)

namespace Before

/-- Whether a `pop` is still to come. -/
def isSpilled : Before → Bool
  | .spilled _ => true
  | _ => false

/-- What is known after a statement. -/
def after (s : Statement) : Before :=
  if isRemovable s then .removable else .anything

/-- What is known after a statement that has gone. -/
def pastGone : Before → Before
  | .spilled value => .spilled value
  | _ => .removable

/-- What is known after statements. -/
def past (b : Before) (ss : List Statement) : Before :=
  ss.foldl (fun _ s => after s) b

/-- What is known where a program is gone through twice. -/
def join (b : Before) : Before → Before
  | .spilled value => .spilled value
  | _ => b

@[simp] theorem isSpilled_after (s : Statement) : (after s).isSpilled = false := by
  unfold after
  split <;> rfl

theorem after_of_removable {s : Statement} (h : isRemovable s = true) : after s = .removable :=
  if_pos h

theorem after_of_not_removable {s : Statement} (h : isRemovable s = false) :
    after s = .anything := by
  unfold after
  rw [h]
  rfl

theorem after_cases (s : Statement) : after s = .anything ∨ after s = .removable := by
  cases h : isRemovable s with
  | true => exact .inr (after_of_removable h)
  | false => exact .inl (after_of_not_removable h)

@[simp] theorem isSpilled_pastGone (b : Before) : b.pastGone.isSpilled = b.isSpilled := by
  cases b <;> rfl

theorem pastGone_of_not_spilled {b : Before} (h : b.isSpilled = false) :
    b.pastGone = .removable := by
  cases b with
  | spilled value => cases h
  | anything | removable => rfl

theorem isSpilled_past {b : Before} (h : b.isSpilled = false) (ss : List Statement) :
    (b.past ss).isSpilled = false := by
  induction ss generalizing b with
  | nil => exact h
  | cons s ss ih => exact ih (isSpilled_after s)

end Before

/-- Why a statement has gone, in front of the program `rest` that is left. -/
inductive Gone (b : Before) (s : Statement) (rest : Program) : Prop where
  /-- It is one of a `push` and a `pop` that went together. -/
  | stack (h : ((pushOperands? s).isSome || (popOperands? s).isSome) = true)
  /-- It branched to the label of the next statement. -/
  | hop {target label : String} {next : Statement} (htarget : branchTarget? s = some target)
      (hlabel : targetLabel? target = some label) (hnext : rest.head? = some next)
      (hmem : label ∈ next.labels)
  /-- It branched to the next statement by distance. -/
  | step {target : String} (htarget : branchTarget? s = some target)
      (hnumber : (Operand.parse target >>= Operand.asInt) = .ok 0)
  /-- It could not be reached. -/
  | unreachable (hbranch : (branchTarget? s).isSome) (hlabels : s.labels = [])
      (hb : b ≠ .anything)

/-! ## Lineages -/

/-- The program on the right comes from the one on the left, where `b` is known of the statements
    before, and the statements that have gone there left the labels `carried`. -/
inductive Lineage : Before → List String → Program → Program → Prop where
  | nil {b : Before} (hb : b.isSpilled = false) : Lineage b [] [] []
  /-- Labels at the end are kept in a loose statement. -/
  | loose {b : Before} {carried : List String} {s' : Statement} {ss' : Program}
      (hb : b.isSpilled = false) (hop : s'.op = none) (hlabels : s'.labels = carried)
      (rest : Lineage .anything [] [] ss') : Lineage b carried [] (s' :: ss')
  | kept {b : Before} {carried : List String} {s s' : Statement} {ss ss' : Program}
      (hb : b.isSpilled = false) (hop : s'.op = s.op) (hoperands : s'.operands = s.operands)
      (hlabels : s'.labels = carried ++ s.labels) (hcomment : s'.comment = s.comment)
      (rest : Lineage (.after s) [] ss ss') : Lineage b carried (s :: ss) (s' :: ss')
  | replaced {b : Before} {carried : List String} {s s' : Statement} {ss ss' : Program}
      {sp value value' : String} (hb : b.isSpilled = false)
      (hpush : pushOperands? s = some (sp, value)) (hop : s'.op = some (.pseudo .mov))
      (hoperands : s'.operands = [value', value]) (hlabels : s'.labels = carried ++ s.labels)
      (rest : Lineage (.spilled value') [] ss ss') : Lineage b carried (s :: ss) (s' :: ss')
  | gone {b : Before} {carried : List String} {s : Statement} {ss ss' : Program}
      (why : Gone b s ss') (hspilled : b.isSpilled = true → carried ++ s.labels = [])
      (rest : Lineage b.pastGone (carried ++ s.labels) ss ss') : Lineage b carried (s :: ss) ss'
  | reloaded {s : Statement} {ss ss' : Program} {sp value' : String}
      (hpop : popOperands? s = some (sp, value')) (hlabels : s.labels = [])
      (rest : Lineage .removable [] ss ss') : Lineage (.spilled value') [] (s :: ss) ss'

variable {b : Before} {carried : List String} {p q : Program}

/-- Labels keep their order, and none is lost. -/
theorem Lineage.labels (h : Lineage b carried p q) :
    q.flatMap (·.labels) = carried ++ p.flatMap (·.labels) := by
  induction h with
  | nil => rfl
  | loose _ _ hlabels _ ih =>
    rw [List.flatMap_cons, ih, hlabels]
    rfl
  | kept _ _ _ hlabels _ _ ih | replaced _ _ _ _ hlabels _ ih =>
    rw [List.flatMap_cons, List.flatMap_cons, ih, hlabels, List.nil_append, List.append_assoc]
  | gone _ _ _ ih => rw [ih, List.flatMap_cons, List.append_assoc]
  | reloaded _ hlabels _ ih =>
    rw [ih, List.flatMap_cons, hlabels]
    rfl

/-- The labels carried on, and those of the first statement, are on the first statement left. -/
theorem Lineage.head_labels (h : Lineage b carried p q) {label : String}
    (hlabel : label ∈ carried ∨ ∃ s, p.head? = some s ∧ label ∈ s.labels) :
    ∃ s', q.head? = some s' ∧ label ∈ s'.labels := by
  induction h with
  | nil =>
    rcases hlabel with hlabel | ⟨s, hs, -⟩
    · cases hlabel
    · cases hs
  | loose _ _ hlabels _ _ =>
    rcases hlabel with hlabel | ⟨s, hs, -⟩
    · exact ⟨_, rfl, hlabels ▸ hlabel⟩
    · cases hs
  | kept _ _ _ hlabels _ _ _ | replaced _ _ _ _ hlabels _ _ =>
    refine ⟨_, rfl, ?_⟩
    rw [hlabels, List.mem_append]
    rcases hlabel with hlabel | ⟨s, hs, hlabel⟩
    · exact .inl hlabel
    · cases hs
      exact .inr hlabel
  | gone _ _ _ ih =>
    -- the statement has gone, and its labels are carried on
    refine ih (.inl (List.mem_append.mpr ?_))
    rcases hlabel with hlabel | ⟨s, hs, hlabel⟩
    · exact .inl hlabel
    · cases hs
      exact .inr hlabel
  | reloaded _ hlabels _ _ =>
    rcases hlabel with hlabel | ⟨s, hs, hlabel⟩
    · cases hlabel
    · cases hs
      rw [hlabels] at hlabel
      cases hlabel

/-- No label is carried on to a statement without labels. -/
theorem Lineage.carried_eq_nil {s' : Statement} (h : Lineage b carried p (s' :: q))
    (hs' : s'.labels = []) : carried = [] := by
  rw [List.eq_nil_iff_forall_not_mem]
  intro label hlabel
  obtain ⟨_, hhead, hmem⟩ := h.head_labels (.inl hlabel)
  cases hhead
  rw [hs'] at hmem
  cases hmem

/-- Between a `push` that became a `mov` and its `pop` there are no labels. -/
theorem Lineage.spilled_labels {value : String} (h : Lineage (.spilled value) carried p q) :
    carried = [] ∧ ∃ s ss, p = s :: ss ∧ s.labels = [] := by
  cases h with
  | nil hb => cases hb
  | loose hb _ _ _ => cases hb
  | kept hb _ _ _ _ _ => cases hb
  | replaced hb _ _ _ _ _ => cases hb
  | gone _ hspilled _ =>
    obtain ⟨hcarried, hlabels⟩ := List.append_eq_nil_iff.mp (hspilled rfl)
    exact ⟨hcarried, _, _, rfl, hlabels⟩
  | reloaded _ hlabels _ => exact ⟨rfl, _, _, rfl, hlabels⟩

/-! ## Composition -/

section

variable {s s' : Statement}

theorem pushOperands?_congr (hop : s'.op = s.op) (hoperands : s'.operands = s.operands) :
    pushOperands? s' = pushOperands? s := by
  unfold pushOperands?
  rw [hop, hoperands]

theorem popOperands?_congr (hop : s'.op = s.op) (hoperands : s'.operands = s.operands) :
    popOperands? s' = popOperands? s := by
  unfold popOperands?
  rw [hop, hoperands]

theorem branchTarget?_congr (hop : s'.op = s.op) (hoperands : s'.operands = s.operands) :
    branchTarget? s' = branchTarget? s := by
  unfold branchTarget?
  rw [hop, hoperands]

theorem isRemovable_congr (hop : s'.op = s.op) (hoperands : s'.operands = s.operands) :
    isRemovable s' = isRemovable s := by
  unfold isRemovable
  rw [pushOperands?_congr hop hoperands, popOperands?_congr hop hoperands,
    branchTarget?_congr hop hoperands]

theorem Before.after_congr (hop : s'.op = s.op) (hoperands : s'.operands = s.operands) :
    Before.after s' = Before.after s := by
  unfold after
  rw [isRemovable_congr hop hoperands]

theorem isRemovable_of_push (h : (pushOperands? s).isSome) : isRemovable s = true := by
  unfold isRemovable
  rw [h]
  rfl

theorem isRemovable_of_pop (h : (popOperands? s).isSome) : isRemovable s = true := by
  unfold isRemovable
  rw [h, Bool.or_true]
  rfl

theorem isRemovable_of_branch (h : (branchTarget? s).isSome) : isRemovable s = true := by
  unfold isRemovable
  rw [h, Bool.or_true]

theorem Gone.isRemovable {rest : Program} (h : Gone b s rest) : isRemovable s = true := by
  cases h with
  | stack h =>
    unfold Peephole.isRemovable
    rw [h]
    rfl
  | hop htarget _ _ _ | step htarget _ => exact isRemovable_of_branch (by rw [htarget]; rfl)
  | unreachable hbranch _ _ => exact isRemovable_of_branch hbranch

theorem isRemovable_of_op_none (h : s.op = none) : isRemovable s = false := by
  unfold isRemovable pushOperands? popOperands? branchTarget?
  rw [h]
  rfl

theorem isRemovable_of_op_mov (h : s.op = some (.pseudo .mov)) : isRemovable s = false := by
  unfold isRemovable pushOperands? popOperands? branchTarget?
  rw [h]
  rfl

theorem isRemovable_of_op_directive {kind : Directive} (h : s.op = some (.directive kind)) :
    isRemovable s = false := by
  unfold isRemovable pushOperands? popOperands? branchTarget?
  rw [h]
  rfl

/-- What may go is no directive. -/
theorem op_ne_of_removable (h : isRemovable s = true) (kind : Directive) :
    s.op ≠ some (.directive kind) := by
  intro hop
  rw [isRemovable_of_op_directive hop] at h
  cases h

/-- No rule applies to a statement that may not go. -/
theorem reduce?_of_not_removable (h : isRemovable s = false) (annotate : Bool)
    (before rest : List Statement) : reduce? annotate before s rest = none := by
  unfold isRemovable at h
  simp only [Bool.or_eq_false_iff, Option.isSome_eq_false_iff, Option.isNone_iff_eq_none] at h
  obtain ⟨⟨hpush, -⟩, hbranch⟩ := h
  have hpair : reducePair? annotate before s rest = none := by
    unfold reducePair?
    split
    · rfl
    · simp only [hpush]
  unfold reduce? reduceBranch?
  simp only [hpair, hbranch]

theorem isNormal_of_not_removable {after : List Statement}
    (h : ∀ s ∈ after, isRemovable s = false) (annotate : Bool) (before : List Statement) :
    isNormal annotate before after = true := by
  induction after generalizing before with
  | nil => rfl
  | cons s rest ih =>
    obtain ⟨hs, hrest⟩ := List.forall_mem_cons.mp h
    rw [isNormal, reduce?_of_not_removable hs, ih hrest]
    rfl

/-- A reason to go holds for a statement of the same code, whatever has been done to the labels
    before and to the program that is left. -/
theorem Gone.congr {b' : Before} {rest rest' : Program} (h : Gone b s' rest)
    (hop : s'.op = s.op) (hoperands : s'.operands = s.operands)
    (hlabels : s'.labels = [] → s.labels = [])
    (hrest : ∀ label next, rest.head? = some next → label ∈ next.labels →
      ∃ next', rest'.head? = some next' ∧ label ∈ next'.labels)
    (hb : b ≠ .anything → b' ≠ .anything) : Gone b' s rest' := by
  cases h with
  | stack h =>
    rw [pushOperands?_congr hop hoperands, popOperands?_congr hop hoperands] at h
    exact .stack h
  | hop htarget hlabel hnext hmem =>
    rw [branchTarget?_congr hop hoperands] at htarget
    obtain ⟨next', hnext', hmem'⟩ := hrest _ _ hnext hmem
    exact .hop htarget hlabel hnext' hmem'
  | step htarget hnumber =>
    rw [branchTarget?_congr hop hoperands] at htarget
    exact .step htarget hnumber
  | unreachable hbranch hnone hbefore =>
    rw [branchTarget?_congr hop hoperands] at hbranch
    exact .unreachable hbranch (hlabels hnone) (hb hbefore)

end

/-- What comes from a first statement that may not go: it is kept. -/
theorem Lineage.stays {s : Statement} {ss r : Program} (h : Lineage b carried (s :: ss) r)
    (hs : isRemovable s = false) :
    ∃ s' ss', r = s' :: ss' ∧ b.isSpilled = false ∧ s'.op = s.op ∧ s'.operands = s.operands ∧
      s'.labels = carried ++ s.labels ∧ Lineage .anything [] ss ss' := by
  cases h with
  | kept hb hop hoperands hlabels _ rest =>
    rw [Before.after_of_not_removable hs] at rest
    exact ⟨_, _, rfl, hb, hop, hoperands, hlabels, rest⟩
  | replaced _ hpush _ _ _ _ =>
    rw [isRemovable_of_push (by rw [hpush]; rfl)] at hs
    cases hs
  | gone why _ _ =>
    rw [why.isRemovable] at hs
    cases hs
  | reloaded hpop _ _ =>
    rw [isRemovable_of_pop (by rw [hpop]; rfl)] at hs
    cases hs

/-- A lineage goes on from what is known, if the statements known to have been removable were so
    from the start, and nothing is carried into a gap between a `push` and its `pop`. -/
structure Before.Continues (b b' : Before) (carried' : List String) : Prop where
  known : b' = .anything ∨ b = .removable
  carried : b.isSpilled = true → carried' = []

namespace Before

variable {b' : Before} {carried' : List String}

theorem Continues.of_not_spilled (hb : b.isSpilled = false) (h : b' = .anything ∨ b = .removable) :
    b.Continues b' carried' where
  known := h
  carried := fun hspilled => by rw [hb] at hspilled; cases hspilled

theorem join_of_not_spilled (h : b'.isSpilled = false) : b.join b' = b := by
  cases b' with
  | spilled value => cases h
  | anything | removable => rfl

theorem isSpilled_join (hb : b.isSpilled = false) (hb' : b'.isSpilled = false) :
    (b.join b').isSpilled = false := by
  rw [join_of_not_spilled hb', hb]

/-- A gap where there was none at first is one of the second time. -/
theorem isSpilled_of_join (hb : b.isSpilled = false) (h : (b.join b').isSpilled = true) :
    b'.isSpilled = true := by
  cases hb' : b'.isSpilled with
  | true => rfl
  | false =>
    rw [isSpilled_join hb hb'] at h
    cases h

theorem pastGone_join (b b' : Before) : (b.join b').pastGone = b.pastGone.join b' := by
  cases b' <;> rfl

/-- It is known of a statement that it may go, whichever time it goes. -/
theorem removable_join_pastGone (hb : b.isSpilled = false) (b' : Before) :
    Before.removable.join b'.pastGone = (b.join b').pastGone := by
  rw [pastGone_join, pastGone_of_not_spilled hb]
  cases b' <;> rfl

theorem Continues.pastGone (hc : b.Continues b' carried') : b.pastGone.Continues b' carried' where
  known := hc.known.imp_right fun hb => by rw [hb]; rfl
  carried := fun hgap => hc.carried (by rwa [isSpilled_pastGone] at hgap)

theorem join_ne_anything_left (h : b ≠ .anything) : b.join b' ≠ .anything := by
  cases b' with
  | spilled value => nofun
  | anything | removable => exact h

theorem Continues.join_ne_anything (hc : b.Continues b' carried') (h : b' ≠ .anything) :
    b.join b' ≠ .anything := by
  rcases hc.known with hknown | rfl
  · exact absurd hknown h
  · exact join_ne_anything_left nofun

end Before

/-- In a gap no labels are carried on, whichever time it is one. -/
theorem Lineage.carried_of_gap {b' : Before} {carried' : List String} {r : Program}
    (h : Lineage b carried p q) (h' : Lineage b' carried' q r) (hc : b.Continues b' carried')
    (hgap : (b.join b').isSpilled = true) : carried' ++ carried = [] := by
  cases b' with
  | spilled value =>
    -- in a gap of the second lineage the next statement has no labels
    obtain ⟨rfl, _, _, rfl, hnone⟩ := h'.spilled_labels
    exact h.carried_eq_nil hnone
  | anything | removable =>
    rw [Before.join_of_not_spilled rfl] at hgap
    cases b with
    | spilled value =>
      rw [hc.carried rfl, h.spilled_labels.1]
      rfl
    | anything | removable => cases hgap

/-- **Composition.**  What comes from a program that comes from another one comes from that. -/
theorem Lineage.trans {b b' : Before} {carried carried' : List String} {p q r : Program}
    (h : Lineage b carried p q) (h' : Lineage b' carried' q r)
    (hc : b.Continues b' carried') : Lineage (b.join b') (carried' ++ carried) p r := by
  induction h generalizing b' carried' r with
  | nil hb =>
    rw [List.append_nil]
    cases h' with
    | nil hb' => exact .nil (Before.isSpilled_join hb hb')
    | loose hb' hop hlabels rest => exact .loose (Before.isSpilled_join hb hb') hop hlabels rest
  | loose hb hop hlabels rest ih =>
    obtain ⟨s', ss', rfl, hb', hop', -, hlabels', rest'⟩ := h'.stays (isRemovable_of_op_none hop)
    exact .loose (Before.isSpilled_join hb hb') (hop'.trans hop) (hlabels ▸ hlabels')
      (ih rest' (.of_not_spilled rfl (.inl rfl)))
  | @kept b carried s s' ss ss' hb hop hoperands hlabels hcomment rest ih =>
    have hjoined : carried' ++ s'.labels = (carried' ++ carried) ++ s.labels := by
      rw [hlabels, List.append_assoc]
    cases h' with
    | kept hb' hop' hoperands' hlabels' hcomment' rest' =>
      rw [Before.after_congr hop hoperands] at rest'
      have hrest := ih rest' (.of_not_spilled (Before.isSpilled_after s) (Before.after_cases s))
      rw [Before.join_of_not_spilled (Before.isSpilled_after s)] at hrest
      exact .kept (Before.isSpilled_join hb hb') (hop'.trans hop) (hoperands'.trans hoperands)
        (hlabels'.trans hjoined) (hcomment'.trans hcomment) hrest
    | replaced hb' hpush hop' hoperands' hlabels' rest' =>
      rw [pushOperands?_congr hop hoperands] at hpush
      rw [Before.after_of_removable (isRemovable_of_push (by rw [hpush]; rfl))] at ih
      exact .replaced (Before.isSpilled_join hb hb') hpush hop' hoperands' (hlabels'.trans hjoined)
        (ih rest' (.of_not_spilled rfl (.inr rfl)))
    | gone why' hspilled' rest' =>
      -- the statement was kept at first, and has gone now
      have hnone : s'.labels = [] → s.labels = [] := fun hnone => by
        rw [hlabels] at hnone
        exact (List.append_eq_nil_iff.mp hnone).2
      have hgone := why'.congr hop hoperands hnone (fun _ next hnext hmem => ⟨next, hnext, hmem⟩)
        hc.join_ne_anything
      rw [← Before.after_congr hop hoperands, Before.after_of_removable why'.isRemovable] at ih
      have hrest := ih rest' (.of_not_spilled rfl (.inr rfl))
      rw [hjoined] at hspilled' hrest
      rw [Before.removable_join_pastGone hb, List.append_nil] at hrest
      exact .gone hgone (fun hgap => hspilled' (Before.isSpilled_of_join hb hgap)) hrest
    | reloaded hpop hlabels' rest' =>
      rw [popOperands?_congr hop hoperands] at hpop
      rw [Before.after_of_removable (isRemovable_of_pop (by rw [hpop]; rfl))] at ih
      rw [hlabels] at hlabels'
      obtain ⟨rfl, hnone⟩ := List.append_eq_nil_iff.mp hlabels'
      exact .reloaded hpop hnone (ih rest' (.of_not_spilled rfl (.inr rfl)))
  | replaced hb hpush hop hoperands hlabels rest ih =>
    -- a `mov` does not go
    obtain ⟨s', ss', rfl, hb', hop', hoperands', hlabels', rest'⟩ :=
      h'.stays (isRemovable_of_op_mov hop)
    exact .replaced (Before.isSpilled_join hb hb') hpush (hop'.trans hop)
      (hoperands'.trans hoperands) (by rw [hlabels', hlabels, List.append_assoc])
      (ih rest' ⟨.inl rfl, fun _ => rfl⟩)
  | @gone b _ _ _ _ why _ rest ih =>
    have hne : b ≠ .anything → b.join b' ≠ .anything := Before.join_ne_anything_left
    have hgone := why.congr rfl rfl id
      (fun label next hnext hmem => h'.head_labels (.inr ⟨next, hnext, hmem⟩)) hne
    have hrest := ih h' hc.pastGone
    rw [← Before.pastGone_join, ← List.append_assoc] at hrest
    refine .gone hgone (fun hgap => ?_) hrest
    rw [List.append_assoc]
    refine rest.carried_of_gap h' hc.pastGone ?_
    rwa [← Before.pastGone_join, Before.isSpilled_pastGone]
  | reloaded hpop hlabels rest ih =>
    obtain rfl : b' = .anything := hc.known.resolve_right nofun
    rw [hc.carried rfl] at h' ⊢
    exact .reloaded hpop hlabels (ih h' (.of_not_spilled rfl (.inl rfl)))

/-! ## The lineage of a reduction -/

/-- Statements in front stay as they are. -/
theorem Lineage.behind {b : Before} {before before' p q : List Statement}
    (hbefore : List.Forall₂ Statement.SameCode before before') (hb : b.isSpilled = false)
    (h : Lineage (b.past before) [] p q) : Lineage b [] (before ++ p) (before' ++ q) := by
  induction hbefore generalizing b with
  | nil => exact h
  | cons hs _ ih =>
    exact .kept hb hs.op hs.operands hs.labels hs.comment (ih (Before.isSpilled_after _) h)

theorem Lineage.refl {b : Before} (hb : b.isSpilled = false) (p : Program) : Lineage b [] p p := by
  have h := Lineage.behind (List.forall₂_same.mpr fun s _ => Statement.SameCode.refl s) hb
    (Lineage.nil (Before.isSpilled_past hb p))
  rwa [List.append_nil] at h

/-- The statement at a place inherits labels; without one, a loose statement is left with them, or
    there are none. -/
theorem inherit_lineage (before rest : List Statement) (labels : List String)
    (trivia : List Trivia) :
    ∃ before' rest', (inherit ⟨before, rest⟩ labels trivia).program = before' ++ rest'
      ∧ List.Forall₂ Statement.SameCode before.reverse before'
      ∧ (∀ b : Before, b.isSpilled = false → Lineage b labels rest rest')
      ∧ ∀ next, rest.head? = some next →
        ∃ next', rest'.head? = some next' ∧ ∀ label ∈ next.labels, label ∈ next'.labels := by
  have hsame : List.Forall₂ Statement.SameCode before.reverse before.reverse :=
    List.forall₂_same.mpr fun s _ => Statement.SameCode.refl s
  have hloose (b : Before) (hb : b.isSpilled = false) :
      Lineage b labels [] [Statement.loose labels trivia 0] :=
    .loose hb rfl rfl (.nil rfl)
  have hend {P : Statement → Prop} (next : Statement) (hnext : none = some next) : P next := by
    cases hnext
  cases rest with
  | cons next rest =>
    refine ⟨_, _, rfl, hsame, fun b hb => ?_, ?_⟩
    · exact .kept hb rfl rfl rfl rfl (.refl (Before.isSpilled_after next) rest)
    · rintro _ ⟨⟩
      exact ⟨_, rfl, fun label hlabel => List.mem_append_right _ hlabel⟩
  | nil =>
    cases before with
    | cons last earlier =>
      by_cases hlabels : labels = []
      · -- trivia alone goes to the statement before
        subst hlabels
        refine ⟨earlier.reverse ++ [{ last with trailing := last.trailing ++ trivia }], [], ?_, ?_,
          fun b hb => .nil hb, hend⟩
        · simp [inherit, Place.program]
        · rw [List.reverse_cons]
          exact List.rel_append (List.forall₂_same.mpr fun s _ => Statement.SameCode.refl s)
            (.cons ⟨rfl, rfl, rfl, rfl⟩ .nil)
      · refine ⟨_, _, ?_, hsame, hloose, hend⟩
        simp [inherit, Place.program, hlabels]
    | nil =>
      by_cases hnone : labels = [] ∧ trivia = []
      · obtain ⟨rfl, rfl⟩ := hnone
        exact ⟨[], [], rfl, hsame, fun b hb => .nil hb, hend⟩
      · refine ⟨[], _, ?_, hsame, hloose, hend⟩
        simp [inherit, Place.program, hnone]

/-- A statement goes where no `pop` is awaited. -/
theorem Lineage.goes {b : Before} {carried : List String} {s : Statement} {ss ss' : Program}
    (hb : b.isSpilled = false) (why : Gone b s ss')
    (rest : Lineage .removable (carried ++ s.labels) ss ss') : Lineage b carried (s :: ss) ss' := by
  refine .gone why (fun hspilled => ?_) ?_
  · rw [hb] at hspilled
    cases hspilled
  · rwa [Before.pastGone_of_not_spilled hb]

/-- A branch goes because it goes to the next statement. -/
theorem Gone.of_goesToNext {b : Before} {s : Statement} {target : String} {rest rest' : Program}
    (htarget : branchTarget? s = some target) (h : goesToNext target rest.head? = true)
    (hrest : ∀ next, rest.head? = some next →
      ∃ next', rest'.head? = some next' ∧ ∀ label ∈ next.labels, label ∈ next'.labels) :
    Gone b s rest' := by
  unfold goesToNext at h
  split at h
  · next label hlabel =>
    obtain ⟨next, hnext, hcontains⟩ := (Option.any_eq_true _ _).mp h
    obtain ⟨-, hmem⟩ := Bool.and_eq_true_iff.mp hcontains
    obtain ⟨next', hnext', hlabels⟩ := hrest next hnext
    exact .hop htarget hlabel hnext' (hlabels label (List.contains_iff_mem.mp hmem))
  · next hlabel =>
    split at h
    · next n hn =>
      rw [beq_iff_eq] at h
      exact .step htarget (h ▸ hn)
    · cases h

/-- One reduction keeps each statement, or it goes for a reason. -/
theorem Reduction.lineage {annotate : Bool} {p q : Program} (h : Reduction annotate p q) :
    Lineage .anything [] p q := by
  have hfirst (before : List Statement) :
      (Before.past .anything before.reverse).isSpilled = false := Before.isSpilled_past rfl _
  cases h with
  | @cancel before rest push pop sp a sp' b hpush hpop hlabels hsp hab =>
    obtain ⟨before', rest', hprogram, hbefore, hrest, -⟩ := inherit_lineage before rest
      ([push, pop].flatMap (·.labels)) _
    rw [discard, hprogram]
    refine .behind hbefore rfl (.goes (hfirst before) (.stack (by rw [hpush]; rfl)) ?_)
    refine .goes rfl (.stack (by rw [hpop, Option.isSome_some, Bool.or_true])) ?_
    have hlineage := hrest .removable rfl
    rwa [List.flatMap_cons, List.flatMap_singleton] at hlineage
  | @merge before rest push pop sp a sp' b hpush hpop hlabels hsp hab =>
    refine .behind (List.forall₂_same.mpr fun s _ => Statement.SameCode.refl s) rfl ?_
    exact .replaced (hfirst before) hpush rfl rfl rfl
      (.reloaded hpop hlabels (.refl rfl rest))
  | @hop before rest s target htarget hnext =>
    obtain ⟨before', rest', hprogram, hbefore, hrest, hhead⟩ := inherit_lineage before rest
      ([s].flatMap (·.labels)) _
    rw [discard, hprogram]
    refine .behind hbefore rfl (.goes (hfirst before) (.of_goesToNext htarget hnext hhead) ?_)
    have hlineage := hrest .removable rfl
    rwa [List.flatMap_singleton] at hlineage
  | @unreachable before rest s next hs hnext hlabels =>
    obtain ⟨before', rest', hprogram, hbefore, hrest, -⟩ := inherit_lineage (s :: before) rest
      ([next].flatMap (·.labels)) _
    rw [discard, hprogram]
    have hsplit : before.reverse ++ s :: next :: rest
        = (s :: before).reverse ++ next :: rest := by simp
    have hafter : Before.past .anything (s :: before).reverse = .removable := by
      rw [List.reverse_cons, Before.past, List.foldl_append]
      exact Before.after_of_removable (isRemovable_of_branch hs)
    rw [hsplit]
    refine .behind hbefore rfl ?_
    rw [hafter]
    refine .goes rfl (.unreachable hnext hlabels nofun) ?_
    have hlineage := hrest .removable rfl
    rwa [List.flatMap_singleton] at hlineage

/-- **The lineage** of an optimized program: each statement is kept, replaced, or has gone for a
    reason, and the labels stand on what comes next. -/
theorem optimize_lineage (annotate : Bool) (p : Program) :
    Lineage .anything [] p (optimize annotate p).1 := by
  have hrow {k : Nat} {p q : Program} (h : Reductions annotate k p q) :
      Lineage .anything [] p q := by
    induction h with
    | none p => exact .refl rfl p
    | step first _ ih => exact first.lineage.trans ih (.of_not_spilled rfl (.inl rfl))
  exact hrow (optimize_reductions annotate p)

end AnnaToolchain.Peephole
