import AnnaToolchain.Proofs.Assembly.Body
import AnnaToolchain.Proofs.Peephole.Reduction
import AnnaToolchain.Proofs.Program.Parsed

/-! # Optimized programs that are printed

    Reducing a program that can be printed and read again leaves another one
    (`printable_reduction`): labels and trivia move as they are, operands are
    those of statements that go, and the notes that are left name at most one
    operand.  So an optimized program that is printed and read again is
    assembled as the optimized program itself (`assemble_render_optimize`). -/

namespace AnnaToolchain

/-- Comments and operands that are put together are a comment. -/
theorem isCommentText_append {a b : String} (ha : IsCommentText a) (hb : IsCommentText b) :
    IsCommentText (a ++ b) := by
  unfold IsCommentText
  rw [String.toList_append]
  exact Text.IsLine.append ha hb

theorem isCommentText_intercalate {sep : String} (hsep : IsCommentText sep) {texts : List String}
    (h : ∀ text ∈ texts, IsCommentText text) : IsCommentText (String.intercalate sep texts) := by
  unfold IsCommentText
  rw [String.toList_intercalate]
  refine Text.IsLine.intercalate hsep fun cs hcs => ?_
  obtain ⟨text, htext, rfl⟩ := List.mem_map.mp hcs
  exact h text htext

namespace Program

/-- A program that has been printed and read again has the labels, mnemonics and operands that it
    had. -/
theorem map_body_of_settle {p q : Program}
    (h : q.map Statement.unnumbered = settle (p.map Statement.reread)) :
    q.map Statement.body = p.map Statement.body := by
  have hbody := congrArg (List.map Statement.body) h
  rw [map_settle (fun _ _ => rfl) (fun _ _ => rfl), List.map_map, List.map_map] at hbody
  exact hbody

end Program

namespace Peephole

/-- A place in a program that can be printed, with nothing loose before it. -/
structure Place.Printable (p : Place) : Prop where
  before : ∀ s ∈ p.before, s.Written IsCommentText ∧ s.isReal = true
  after : ∀ s ∈ p.after, s.Written IsCommentText
  regular : Program.Regular p.after

section

variable {before rest : List Statement} {s : Statement} (hs : s.isReal = true)

include hs

/-- A statement with a mnemonic has nothing loose before it. -/
theorem printable_place (h : Program.Printable (before.reverse ++ s :: rest)) :
    Place.Printable ⟨before, s :: rest⟩ := by
  obtain ⟨hbefore, hafter⟩ := List.forall_mem_append.mp h.written
  have hregular : Program.Regular (before.reverse ++ s :: rest) := by
    refine h.shape.resolve_right ?_
    -- a loose statement has no mnemonic
    rintro ⟨leading, line, -, heq⟩
    have hmem : s ∈ before.reverse ++ s :: rest := List.mem_append_right _ List.mem_cons_self
    rw [heq] at hmem
    rw [List.mem_singleton.mp hmem] at hs
    cases hs
  obtain ⟨hreal, hrest⟩ := hregular.split hs
  refine ⟨fun s hs => ⟨?_, ?_⟩, hafter, .cons hs hrest⟩
  · exact hbefore s (List.mem_reverse.mpr hs)
  · exact hreal s (List.mem_reverse.mpr hs)

/-- A statement with a mnemonic can be taken out. -/
theorem Place.Printable.drop (h : Place.Printable ⟨before, s :: rest⟩) :
    s.Written IsCommentText ∧ Place.Printable ⟨before, rest⟩ := by
  obtain ⟨hself, hafter⟩ := List.forall_mem_cons.mp h.after
  have hregular : Program.Regular ([] ++ s :: rest) := h.regular
  exact ⟨hself, h.before, hafter, (hregular.split hs).2⟩

theorem Place.Printable.step (h : Place.Printable ⟨before, s :: rest⟩) :
    Place.Printable ⟨s :: before, rest⟩ := by
  obtain ⟨hself, hrest⟩ := h.drop hs
  exact ⟨List.forall_mem_cons.mpr ⟨⟨hself, hs⟩, h.before⟩, hrest.after, hrest.regular⟩

end

/-- A program can be printed if the statements up to some place can, and those from there on. -/
theorem Place.Printable.program {p : Place} (h : p.Printable) :
    p.program.Printable where
  written := List.forall_mem_append.mpr
    ⟨fun s hs => (h.before s (List.mem_reverse.mp hs)).1, h.after⟩
  shape := .inl (.append (fun s hs => (h.before s (List.mem_reverse.mp hs)).2) h.regular)

variable {p : Place} {labels : List String} {trivia : List Trivia}

/-- Labels and trivia that are passed on can still be printed. -/
theorem printable_inherit (h : p.Printable) (hlabels : ∀ name ∈ labels, IsLabelName name)
    (htrivia : ∀ c, .comment c ∈ trivia → IsCommentText c) :
    (inherit p labels trivia).program.Printable := by
  obtain ⟨before, after⟩ := p
  cases after with
  | cons next rest =>
    -- they go to the statement after
    obtain ⟨hnext, hrest⟩ := List.forall_mem_cons.mp h.after
    have hnext' : Statement.Written IsCommentText
        { next with labels := labels ++ next.labels, leading := trivia ++ next.leading } := by
      refine { hnext with labels := List.forall_mem_append.mpr ⟨hlabels, hnext.labels⟩,
                          leading := fun c hc => ?_ }
      exact (List.mem_append.mp hc).elim (htrivia c) (hnext.leading c)
    refine Place.Printable.program ⟨h.before, List.forall_mem_cons.mpr ⟨hnext', hrest⟩, ?_⟩
    cases h.regular with
    | cons hreal hrest => exact .cons hreal hrest
    | loose hne => exact .loose fun hnil => hne (List.append_eq_nil_iff.mp hnil).2
  | nil =>
    have hloose := Statement.written_loose hlabels htrivia 0
    cases before with
    | cons last earlier =>
      by_cases hnil : labels = []
      · -- trivia alone goes to the statement before
        obtain ⟨⟨hlast, hreal⟩, hearlier⟩ := List.forall_mem_cons.mp h.before
        have hlast' : Statement.Written IsCommentText
            { last with trailing := last.trailing ++ trivia } := by
          refine { hlast with trailing := fun c hc => ?_ }
          exact (List.mem_append.mp hc).elim (hlast.trailing c) (htrivia c)
        simp only [inherit, if_pos hnil]
        exact Place.Printable.program
          ⟨List.forall_mem_cons.mpr ⟨⟨hlast', hreal⟩, hearlier⟩, List.forall_mem_nil _, .nil⟩
      · simp only [inherit, if_neg hnil]
        exact Place.Printable.program
          ⟨h.before, List.forall_mem_singleton.mpr hloose, .loose hnil⟩
    | nil =>
      by_cases hnil : labels = [] ∧ trivia = []
      · simp only [inherit, if_pos hnil]
        exact h.program
      · simp only [inherit, if_neg hnil]
        refine ⟨List.forall_mem_singleton.mpr hloose, ?_⟩
        by_cases hempty : labels = []
        · rw [hempty]
          exact .inr ⟨trivia, 0, fun htrivia => hnil ⟨hempty, htrivia⟩, rfl⟩
        · exact .inl (.loose hempty)

/-- What statements that go leave behind can still be printed. -/
theorem printable_discard {removed : List Statement} {note : Option String} (h : p.Printable)
    (hremoved : ∀ s ∈ removed, s.Written IsCommentText)
    (hnote : ∀ c, note = some c → IsCommentText c) :
    (discard p removed note).program.Printable := by
  refine printable_inherit h (fun name hname => ?_) fun c hc => ?_
  · obtain ⟨s, hs, hmem⟩ := List.mem_flatMap.mp hname
    exact (hremoved s hs).labels name hmem
  · rcases List.mem_append.mp hc with hc | hc
    · obtain ⟨s, hs, hmem⟩ := List.mem_flatMap.mp hc
      exact (hremoved s hs).allTrivia c hmem
    · obtain ⟨c', hc', heq⟩ := List.mem_map.mp hc
      rw [← Trivia.comment.inj heq]
      exact hnote c' (Option.mem_toList.mp hc')

theorem pushOperands?_eq_some {s : Statement} {sp a : String}
    (h : pushOperands? s = some (sp, a)) : s.isReal = true ∧ s.operands = [sp, a] := by
  unfold pushOperands? at h
  split at h
  · next hop hoperands =>
    obtain ⟨rfl, rfl⟩ := Prod.mk.inj (Option.some.inj h)
    exact ⟨by rw [Statement.isReal, hop]; rfl, hoperands⟩
  · cases h

theorem popOperands?_eq_some {s : Statement} {sp b : String}
    (h : popOperands? s = some (sp, b)) : s.isReal = true ∧ s.operands = [sp, b] := by
  unfold popOperands? at h
  split at h
  · next hop hoperands =>
    obtain ⟨rfl, rfl⟩ := Prod.mk.inj (Option.some.inj h)
    exact ⟨by rw [Statement.isReal, hop]; rfl, hoperands⟩
  · cases h

theorem isReal_of_branchTarget?_isSome {s : Statement} (h : (branchTarget? s).isSome = true) :
    s.isReal = true := by
  obtain ⟨target, htarget⟩ := Option.isSome_iff_exists.mp h
  exact isReal_of_branchTarget? htarget

theorem of_noteIf {isComment : String → Prop} (annotate : Bool) {note : String}
    (h : isComment note) (c : String) (hc : noteIf annotate note = some c) : isComment c := by
  unfold noteIf at hc
  split at hc
  · rwa [← Option.some.inj hc]
  · cases hc

/-- The `mov` for a `push` and a `pop` can still be printed. -/
theorem written_movOf {push pop : Statement} {a b : String} {note : Option String}
    (hpush : push.Written IsCommentText) (hpop : pop.Written IsCommentText)
    (ha : IsOperandText a) (hb : IsOperandText b) (hnote : ∀ c, note = some c → IsCommentText c) :
    (movOf push pop a b note).Written IsCommentText where
  labels := hpush.labels
  operands := List.forall_mem_cons.mpr ⟨hb, List.forall_mem_singleton.mpr ha⟩
  comment c hc := by
    simp only [movOf] at hc
    split at hc
    · cases hc
    · rw [← Option.some.inj hc]
      refine isCommentText_intercalate ⟨by decide, by decide⟩ fun text htext => ?_
      rcases List.mem_append.mp htext with htext | htext
      · rcases List.mem_append.mp htext with htext | htext
        · exact hpush.comment text (Option.mem_toList.mp htext)
        · exact hpop.comment text (Option.mem_toList.mp htext)
      · exact hnote text (Option.mem_toList.mp htext)
  leading c hc := (List.mem_append.mp hc).elim (hpush.leading c) (hpop.leading c)
  trailing c hc := (List.mem_append.mp hc).elim (hpush.trailing c) (hpop.trailing c)

/-- **One reduction** leaves a program that can be printed. -/
theorem printable_reduction {annotate : Bool} {p q : Program} (h : Reduction annotate p q)
    (hp : p.Printable) : q.Printable := by
  cases h with
  | @cancel before rest push pop sp a sp' b hpush hpop =>
    obtain ⟨hpushReal, hoperands⟩ := pushOperands?_eq_some hpush
    obtain ⟨hpopReal, -⟩ := popOperands?_eq_some hpop
    obtain ⟨hpush', hplace⟩ := (printable_place hpushReal hp).drop hpushReal
    obtain ⟨hpop', hplace⟩ := hplace.drop hpopReal
    -- the note names an operand
    have ha : IsOperandText a := hpush'.operands a (by rw [hoperands]; simp)
    have hstart : IsCommentText "removed push/pop of " := ⟨by decide, by decide⟩
    have hnote := isCommentText_append hstart ha.isLine
    exact printable_discard hplace
      (List.forall_mem_cons.mpr ⟨hpush', List.forall_mem_singleton.mpr hpop'⟩)
      (of_noteIf annotate hnote)
  | @merge before rest push pop sp a sp' b hpush hpop =>
    obtain ⟨hpushReal, hpushOperands⟩ := pushOperands?_eq_some hpush
    obtain ⟨hpopReal, hpopOperands⟩ := popOperands?_eq_some hpop
    obtain ⟨hpush', hplace⟩ := (printable_place hpushReal hp).drop hpushReal
    obtain ⟨hpop', hplace⟩ := hplace.drop hpopReal
    have ha : IsOperandText a := hpush'.operands a (by rw [hpushOperands]; simp)
    have hb : IsOperandText b := hpop'.operands b (by rw [hpopOperands]; simp)
    have hnote : IsCommentText "push/pop became mov" := ⟨by decide, by decide⟩
    have hmov := written_movOf hpush' hpop' ha hb (of_noteIf annotate hnote)
    have hplace' : Place.Printable
        ⟨before, movOf push pop a b (noteIf annotate "push/pop became mov") :: rest⟩ :=
      ⟨hplace.before, List.forall_mem_cons.mpr ⟨hmov, hplace.after⟩, .cons rfl hplace.regular⟩
    exact hplace'.program
  | @hop before rest s target htarget =>
    have hreal := isReal_of_branchTarget? htarget
    obtain ⟨hs, hplace⟩ := (printable_place hreal hp).drop hreal
    exact printable_discard hplace (List.forall_mem_singleton.mpr hs)
      (of_noteIf annotate ⟨by decide, by decide⟩)
  | @unreachable before rest s next hs hnext =>
    have hreal := isReal_of_branchTarget?_isSome hs
    have hnextReal := isReal_of_branchTarget?_isSome hnext
    have hplace := (printable_place hreal hp).step hreal
    obtain ⟨hnext, hplace⟩ := hplace.drop hnextReal
    exact printable_discard hplace (List.forall_mem_singleton.mpr hnext)
      (of_noteIf annotate ⟨by decide, by decide⟩)

theorem printable_reductions {annotate : Bool} {n : Nat} {p q : Program}
    (h : Reductions annotate n p q) (hp : p.Printable) :
    q.Printable := by
  induction h with
  | none p => exact hp
  | step first _ ih => exact ih (printable_reduction first hp)

/-- **Optimizing** leaves a program that can be printed. -/
theorem printable_optimize (annotate : Bool) {p : Program} (hp : p.Printable) :
    (optimize annotate p).1.Printable :=
  printable_reductions (optimize_reductions annotate p) hp

/-- **Printing an optimized program.**  An optimized program can be printed and read again.  It then
    has the same labels, mnemonics and operands, and becomes the same image or fails for the same
    reason. -/
theorem assemble_render_optimize {source : String} {p : Program}
    (h : Program.parse source = .ok p) (annotate : Bool) :
    ∃ q, Program.parse (Program.render (optimize annotate p).1) = .ok q ∧
      q.map Statement.body = (optimize annotate p).1.map Statement.body ∧
      ∀ memLen, Program.causeOf (q.assemble memLen).2
        = Program.causeOf (Program.assemble (optimize annotate p).1 memLen).2 := by
  have hprintable := printable_optimize annotate (Program.readable_of_parse h).printable
  obtain ⟨q, hparse, hq⟩ := Program.parse_render hprintable
  have hbody := Program.map_body_of_settle hq
  exact ⟨q, hparse, hbody, Program.assemble_of_body hbody⟩

/-- A `push` and a `pop` with comments, that become a `mov`. -/
def handover : Program :=
  [{ labels := ["s"], op := some (.pseudo .push), operands := ["r7", "r1"], comment := some "a",
     line := 1 },
   { op := some (.pseudo .pop), operands := ["r7", "r2"], line := 2 },
   { op := some (.pseudo .br), operands := ["&s"], line := 3 },
   { op := some (.directive .cstr), operands := ["\"a b\""], trailing := [.comment "end"],
     line := 4 }]

/-- What becomes of `handover`. -/
def handedOver : Program :=
  [{ labels := ["s"], op := some (.pseudo .mov), operands := ["r2", "r1"],
     comment := some "a; push/pop became mov", line := 1 },
   { op := some (.pseudo .br), operands := ["&s"], line := 3 },
   { op := some (.directive .cstr), operands := ["\"a b\""], trailing := [.comment "end"],
     line := 4 }]

theorem optimize_handover : (optimize true handover).1 = handedOver := by
  have hsweep : sweep true handover = (handedOver, 1) := by
    rw [sweep, handover, sweepFrom_of_some (p := ⟨[], handedOver⟩) (by decide +kernel)]
    exact sweepFrom_of_normal (by decide +kernel)
  rw [optimize_of_reduced hsweep, optimize_of_normal (by decide +kernel)]

theorem assemble_render_handover :
    Program.parse "s: push r7, r1 # a\npop r7 , r2\nbr &s\n.cstr \"a b\"\n#end" = .ok handover ∧
      ∃ q, Program.parse handedOver.render = .ok q ∧
        q.map Statement.body = handedOver.map Statement.body ∧
        ∀ memLen, Program.causeOf (q.assemble memLen).2
          = Program.causeOf (handedOver.assemble memLen).2 := by
  have hparse : Program.parse "s: push r7, r1 # a\npop r7 , r2\nbr &s\n.cstr \"a b\"\n#end"
      = .ok handover := by decide +kernel
  refine ⟨hparse, ?_⟩
  rw [← optimize_handover]
  exact assemble_render_optimize hparse true

end Peephole

end AnnaToolchain
