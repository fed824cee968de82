import AnnaToolchain.Proofs.Peephole.Lineage

/-! # What optimizing keeps

    Labels, comments and blank lines belong to the author of a program.  They
    are handed on when statements go, and may be handed on many times.  None
    of them is lost or doubled, and nothing is added but one note on each
    reduction, where notes are wanted (`optimize_conserves`).

    For this, each statement that is left has an origin (`Origin`): a
    statement that it still says the same as, or a `push` and a `pop` whose
    comments are joined in its own, or none.  An account holds the origins of
    a program, the statements that have gone and the notes (`Account`).  Every
    reduction leaves one (`Account.step`). -/

namespace AnnaToolchain

/-! ## What is around statements -/

/-- The text of a line of comment. -/
def Trivia.comment? : Trivia → Option String
  | .blank => none
  | .comment contents => some contents

/-- The lines of trivia around a statement, without the comment on its own line. -/
def Statement.around (s : Statement) : List Trivia :=
  s.leading ++ s.trailing

/-- What is on a statement's own line. -/
def Statement.ownLine (s : Statement) : Option Mnemonic × List String × Option String :=
  (s.op, s.operands, s.comment)

/-- Lines of trivia and the comments on other lines are all the trivia there is. -/
theorem perm_flatMap_allTrivia (p : Program) :
    List.Perm (p.flatMap Statement.allTrivia)
      (p.flatMap Statement.around ++ (p.flatMap (·.comment.toList)).map .comment) := by
  rw [List.perm_iff_count]
  intro t
  induction p with
  | nil => rfl
  | cons s p ih =>
    simp only [List.flatMap_cons, List.map_append, List.count_append, Statement.allTrivia,
      Statement.around] at ih ⊢
    omega

namespace Program

/-- The comments that stand on lines of their own. -/
def lineComments (p : Program) : List String :=
  (p.flatMap Statement.around).filterMap Trivia.comment?

/-- All the comments of a program. -/
def comments (p : Program) : List String :=
  (p.flatMap Statement.allTrivia).filterMap Trivia.comment?

/-- The number of blank lines. -/
def blankCount (p : Program) : Nat :=
  (p.flatMap Statement.around).count .blank

end Program

namespace Peephole

/-! ## Origins -/

/-- Where a statement of an optimized program comes from. -/
inductive Origin where
  /-- It has been there before. -/
  | kept (s : Statement)
  /-- It takes the place of a `push` of `a` and a `pop` to `b`. -/
  | merged (push pop : Statement) (sp a sp' b : String) (hpush : pushOperands? push = some (sp, a))
      (hpop : popOperands? pop = some (sp', b)) (hsp : sameRegister sp sp' = true)
  /-- It only holds what had no other place. -/
  | loose

namespace Origin

/-- The statements that it comes from. -/
def sources : Origin → List Statement
  | kept s => [s]
  | merged push pop _ _ _ _ _ _ _ => [push, pop]
  | loose => []

/-- The parts of the comment on its line. -/
def parts (annotate : Bool) : Origin → List String
  | kept s => s.comment.toList
  | merged push pop _ _ _ _ _ _ _ =>
    push.comment.toList ++ pop.comment.toList
      ++ (noteIf annotate "push/pop became mov").toList
  | loose => []

/-- What is on its line. -/
def ownLine (annotate : Bool) : Origin → Option Mnemonic × List String × Option String
  | kept s => s.ownLine
  | merged push pop sp a sp' b hpush hpop hsp =>
    let parts := parts annotate (merged push pop sp a sp' b hpush hpop hsp)
    (some (.pseudo .mov), [b, a],
      if parts = [] then none else some (String.intercalate "; " parts))
  | loose => (none, [], none)

/-- What may go has been there before. -/
theorem eq_kept_of_ownLine {annotate : Bool} {s : Statement} {o : Origin}
    (h : s.ownLine = o.ownLine annotate) (hs : isRemovable s = true) :
    ∃ s₀, o = kept s₀ ∧ s.ownLine = s₀.ownLine := by
  have hop := congrArg Prod.fst h
  cases o with
  | kept s₀ => exact ⟨s₀, rfl, h⟩
  | merged push pop sp a sp' b hpush hpop hsp =>
    rw [isRemovable_of_op_mov hop] at hs
    cases hs
  | loose =>
    rw [isRemovable_of_op_none hop] at hs
    cases hs

/-- Statements that may go have been there before, with their comments. -/
theorem of_removable {annotate : Bool} {ss : List Statement} {os : List Origin}
    (h : ss.map Statement.ownLine = os.map (ownLine annotate))
    (hss : ∀ s ∈ ss, isRemovable s = true) :
    os.flatMap (parts annotate) = ss.flatMap (·.comment.toList)
      ∧ ∀ s₀ ∈ os.flatMap sources, isRemovable s₀ = true := by
  induction ss generalizing os with
  | nil =>
    obtain rfl := List.map_eq_nil_iff.mp h.symm
    exact ⟨rfl, nofun⟩
  | cons s ss ih =>
    obtain ⟨o, os, rfl, hs, hrest⟩ := List.map_eq_cons_iff.mp h.symm
    obtain ⟨hremovable, hall⟩ := List.forall_mem_cons.mp hss
    obtain ⟨s₀, rfl, hline⟩ := eq_kept_of_ownLine hs.symm hremovable
    obtain ⟨hop, hoperands, hcomment⟩ : s.op = s₀.op ∧ s.operands = s₀.operands
        ∧ s.comment = s₀.comment := by
      simpa only [Statement.ownLine, Prod.mk.injEq] using hline
    obtain ⟨hparts, hsources⟩ := ih hrest.symm hall
    refine ⟨?_, List.forall_mem_cons.mpr ⟨?_, hsources⟩⟩
    · rw [List.flatMap_cons, List.flatMap_cons, hparts, parts, hcomment]
    · rw [← isRemovable_congr hop hoperands]
      exact hremovable

end Origin

/-- The notes on reductions. -/
inductive IsNote : String → Prop where
  | cancelled (a : String) : IsNote ("removed push/pop of " ++ a)
  | merged : IsNote "push/pop became mov"
  | hop : IsNote "removed branch to next statement"
  | unreachable : IsNote "removed unreachable branch"

/-! ## Accounts -/

/-- What became of the program `p` on the way to `q`, over `n` reductions. -/
structure Account (annotate : Bool) (n : Nat) (p q : Program) (origins : List Origin)
    (gone : List Statement) (notes : List String) : Prop where
  ownLines : q.map Statement.ownLine = origins.map (Origin.ownLine annotate)
  order : (origins.flatMap Origin.sources).Sublist p
  statements : List.Perm p (origins.flatMap Origin.sources ++ gone)
  removable : ∀ s ∈ gone, isRemovable s = true
  trivia : List.Perm
    (q.flatMap Statement.around ++ (origins.flatMap (Origin.parts annotate)).map .comment)
    (p.flatMap Statement.allTrivia ++ notes.map .comment)
  noted : notes.length = if annotate then n else 0
  explains : ∀ note ∈ notes, IsNote note

namespace Account

variable {annotate : Bool} {n : Nat} {p q : Program} {origins : List Origin}
  {gone : List Statement} {notes : List String}

theorem refl (annotate : Bool) (p : Program) : Account annotate 0 p p (p.map .kept) [] [] := by
  have hsources : (p.map Origin.kept).flatMap Origin.sources = p := by
    rw [List.flatMap_map]
    exact List.flatMap_singleton' p
  refine ⟨?_, ?_, ?_, nofun, ?_, by simp, nofun⟩
  · rw [List.map_map]
    rfl
  · rw [hsources]
  · rw [hsources, List.append_nil]
  · rw [List.flatMap_map, List.map_nil, List.append_nil]
    exact (perm_flatMap_allTrivia p).symm

end Account

/-! ## Handing on -/

/-- Handing on changes no line with a statement, and adds no more than a loose one. -/
theorem map_ownLine_inherit (annotate : Bool) (p : Place) (labels : List String)
    (trivia : List Trivia) : ∃ k,
    (inherit p labels trivia).program.map Statement.ownLine
      = p.program.map Statement.ownLine
        ++ (List.replicate k Origin.loose).map (Origin.ownLine annotate) := by
  obtain ⟨before, after⟩ := p
  cases after with
  | cons next rest =>
    refine ⟨0, ?_⟩
    simp [inherit, Place.program, Statement.ownLine]
  | nil =>
    cases before with
    | cons last earlier =>
      by_cases hlabels : labels = []
      · refine ⟨0, ?_⟩
        simp [inherit, Place.program, Statement.ownLine, hlabels]
      · refine ⟨1, ?_⟩
        simp [inherit, Place.program, Statement.ownLine, Statement.loose, Origin.ownLine, hlabels]
    | nil =>
      by_cases hnone : labels = [] ∧ trivia = []
      · refine ⟨0, ?_⟩
        simp [inherit, Place.program, hnone]
      · refine ⟨1, ?_⟩
        simp [inherit, Place.program, Statement.ownLine, Statement.loose, Origin.ownLine, hnone]

/-- All the trivia that is handed on arrives. -/
theorem perm_around_inherit (p : Place) (labels : List String) (trivia : List Trivia) :
    List.Perm ((inherit p labels trivia).program.flatMap Statement.around)
      (p.program.flatMap Statement.around ++ trivia) := by
  rw [List.perm_iff_count]
  intro t
  obtain ⟨before, after⟩ := p
  cases after with
  | cons next rest =>
    simp only [inherit, Place.program, List.flatMap_append, List.flatMap_cons, List.count_append,
      Statement.around]
    omega
  | nil =>
    cases before with
    | cons last earlier =>
      by_cases hlabels : labels = []
      · simp only [inherit, hlabels, if_true, Place.program, List.reverse_cons, List.append_nil,
          List.flatMap_append, List.flatMap_singleton, List.count_append, Statement.around]
        omega
      · simp [inherit, hlabels, Place.program, Statement.around, Statement.loose]
    | nil =>
      by_cases hnone : labels = [] ∧ trivia = []
      · simp [inherit, hnone, Place.program]
      · simp [inherit, hnone, Place.program, Statement.around, Statement.loose]

/-! ## One reduction -/

namespace Account

variable {annotate : Bool} {n : Nat} {p : Program} {origins : List Origin}
  {gone : List Statement} {notes : List String} {note : String}

theorem noted_note (hnoted : notes.length = if annotate then n else 0) (note : String) :
    (notes ++ (noteIf annotate note).toList).length = if annotate then n + 1 else 0 := by
  cases annotate <;> simpa [noteIf] using hnoted

theorem explains_note (hexplains : ∀ note ∈ notes, IsNote note) (hnote : IsNote note) :
    ∀ note' ∈ notes ++ (noteIf annotate note).toList, IsNote note' := by
  refine List.forall_mem_append.mpr ⟨hexplains, ?_⟩
  cases annotate with
  | false => exact nofun
  | true => exact List.forall_mem_singleton.mpr hnote

/-- Statements that may go are discarded. -/
theorem discard {before removed rest : List Statement}
    (h : Account annotate n p (before.reverse ++ (removed ++ rest)) origins gone notes)
    (hremoved : ∀ s ∈ removed, isRemovable s = true) (hnote : IsNote note) :
    ∃ origins' gone' notes', Account annotate (n + 1) p
      (discard ⟨before, rest⟩ removed (noteIf annotate note)).program origins' gone' notes' := by
  have hlines := h.ownLines.symm
  rw [List.map_append, List.map_append] at hlines
  obtain ⟨os, osRest, rfl, hbefore, hlines⟩ := List.map_eq_append_iff.mp hlines
  obtain ⟨osRemoved, osAfter, rfl, hgone, hafter⟩ := List.map_eq_append_iff.mp hlines
  -- none of the statements that go is a `mov` made before, so their comments are single parts
  obtain ⟨hparts, hremovable⟩ := Origin.of_removable hgone.symm hremoved
  obtain ⟨k, hinherit⟩ := map_ownLine_inherit annotate ⟨before, rest⟩
    (removed.flatMap (·.labels))
    (removed.flatMap Statement.allTrivia ++ (noteIf annotate note).toList.map .comment)
  have hsources : (List.replicate k Origin.loose).flatMap Origin.sources = [] := by
    simp [List.flatMap_replicate, Origin.sources]
  have hnoParts : (List.replicate k Origin.loose).flatMap (Origin.parts annotate) = [] := by
    simp [List.flatMap_replicate, Origin.parts]
  refine ⟨os ++ osAfter ++ List.replicate k .loose, gone ++ osRemoved.flatMap Origin.sources,
    notes ++ (noteIf annotate note).toList, ?_⟩
  constructor
  case ownLines =>
    rw [Peephole.discard, hinherit, Place.program, List.map_append, List.map_append,
      List.map_append, hbefore, hafter]
  case order =>
    refine List.Sublist.trans ?_ h.order
    simp only [List.flatMap_append, hsources, List.append_nil]
    exact (List.sublist_append_right _ _).append_left _
  case statements =>
    refine h.statements.trans (List.perm_iff_count.mpr fun s => ?_)
    simp only [List.flatMap_append, hsources, List.append_nil, List.count_append]
    omega
  case removable => exact List.forall_mem_append.mpr ⟨h.removable, hremovable⟩
  case trivia =>
    -- what is around the statements that went is handed on, and their own comments with it
    have haround : List.Perm
        ((Peephole.discard ⟨before, rest⟩ removed (noteIf annotate note)).program.flatMap
          Statement.around)
        ((before.reverse ++ rest).flatMap Statement.around
          ++ (removed.flatMap Statement.allTrivia
            ++ (noteIf annotate note).toList.map .comment)) :=
      perm_around_inherit _ _ _
    rw [List.perm_iff_count]
    intro t
    have haround := haround.count_eq t
    have htrivia := h.trivia.count_eq t
    have hall := (perm_flatMap_allTrivia removed).count_eq t
    simp only [List.flatMap_append, List.map_append, List.count_append, hparts, hnoParts,
      List.append_nil] at haround htrivia hall ⊢
    omega
  case noted => exact noted_note h.noted note
  case explains => exact explains_note h.explains hnote

/-- A `push` and a `pop` become a `mov`. -/
theorem merge {before rest : List Statement} {push pop : Statement} {sp a sp' b : String}
    (h : Account annotate n p (before.reverse ++ push :: pop :: rest) origins gone notes)
    (hpush : pushOperands? push = some (sp, a)) (hpop : popOperands? pop = some (sp', b))
    (hsp : sameRegister sp sp' = true) :
    ∃ origins' gone' notes', Account annotate (n + 1) p
      (before.reverse ++ movOf push pop a b (noteIf annotate "push/pop became mov") :: rest)
      origins' gone' notes' := by
  have hlines := h.ownLines.symm
  rw [List.map_append, List.map_cons, List.map_cons] at hlines
  obtain ⟨os, osRest, rfl, hbefore, hlines⟩ := List.map_eq_append_iff.mp hlines
  obtain ⟨oPush, osRest, rfl, hlinePush, hlines⟩ := List.map_eq_cons_iff.mp hlines
  obtain ⟨oPop, osAfter, rfl, hlinePop, hafter⟩ := List.map_eq_cons_iff.mp hlines
  -- the two have been there before, so the parts of the joined comment are theirs
  obtain ⟨push₀, rfl, hpush₀⟩ := Origin.eq_kept_of_ownLine hlinePush.symm
    (isRemovable_of_push (by rw [hpush]; rfl))
  obtain ⟨pop₀, rfl, hpop₀⟩ := Origin.eq_kept_of_ownLine hlinePop.symm
    (isRemovable_of_pop (by rw [hpop]; rfl))
  simp only [Statement.ownLine, Prod.mk.injEq] at hpush₀ hpop₀
  obtain ⟨hop, hoperands, hcomment⟩ := hpush₀
  obtain ⟨hop', hoperands', hcomment'⟩ := hpop₀
  rw [pushOperands?_congr hop hoperands] at hpush
  rw [popOperands?_congr hop' hoperands'] at hpop
  refine ⟨os ++ .merged push₀ pop₀ sp a sp' b hpush hpop hsp :: osAfter, gone,
    notes ++ (noteIf annotate "push/pop became mov").toList, ?_⟩
  constructor
  case ownLines =>
    rw [List.map_append, List.map_append, List.map_cons, List.map_cons, hbefore, hafter]
    simp only [movOf, Statement.ownLine, Origin.ownLine, Origin.parts, hcomment, hcomment']
    rfl
  case order =>
    refine List.Sublist.trans ?_ h.order
    simp [Origin.sources]
  case statements =>
    refine h.statements.trans (List.perm_iff_count.mpr fun s => ?_)
    simp [Origin.sources]
  case removable => exact h.removable
  case trivia =>
    rw [List.perm_iff_count]
    intro t
    have htrivia := h.trivia.count_eq t
    simp only [List.flatMap_append, List.flatMap_cons, List.map_append, List.count_append,
      Statement.around, movOf, Origin.parts] at htrivia ⊢
    omega
  case noted => exact noted_note h.noted _
  case explains => exact explains_note h.explains .merged

/-- **One reduction** leaves an account. -/
theorem step {q r : Program} (h : Account annotate n p q origins gone notes)
    (hreduction : Reduction annotate q r) :
    ∃ origins' gone' notes', Account annotate (n + 1) p r origins' gone' notes' := by
  cases hreduction with
  | @cancel before rest push pop sp a sp' b hpush hpop hlabels hsp hab =>
    have hpair : ∀ s ∈ [push, pop], isRemovable s = true :=
      List.forall_mem_cons.mpr ⟨isRemovable_of_push (by rw [hpush]; rfl),
        List.forall_mem_singleton.mpr (isRemovable_of_pop (by rw [hpop]; rfl))⟩
    exact h.discard hpair (.cancelled a)
  | merge hpush hpop hlabels hsp hab => exact h.merge hpush hpop hsp
  | @hop before rest s target htarget hnext =>
    have hbranch : ∀ s' ∈ [s], isRemovable s' = true :=
      List.forall_mem_singleton.mpr (isRemovable_of_branch (by rw [htarget]; rfl))
    have hsplit : before.reverse ++ s :: rest = before.reverse ++ ([s] ++ rest) := rfl
    rw [hsplit] at h
    exact h.discard hbranch .hop
  | @unreachable before rest s next hs hnext hlabels =>
    -- the branch that stays is before the place
    have hbranch : ∀ s' ∈ [next], isRemovable s' = true :=
      List.forall_mem_singleton.mpr (isRemovable_of_branch hnext)
    have hsplit : before.reverse ++ s :: next :: rest
        = (s :: before).reverse ++ ([next] ++ rest) := by simp
    rw [hsplit] at h
    exact h.discard hbranch .unreachable

/-- **Many reductions** leave an account. -/
theorem run {m : Nat} {q r : Program} (h : Account annotate n p q origins gone notes)
    (hreductions : Reductions annotate m q r) :
    ∃ origins' gone' notes', Account annotate (n + m) p r origins' gone' notes' := by
  induction hreductions generalizing n origins gone notes with
  | none q => exact ⟨origins, gone, notes, h⟩
  | @step m q q' r first others ih =>
    obtain ⟨origins', gone', notes', h'⟩ := h.step first
    rw [← Nat.succ_add_eq_add_succ]
    exact ih h'

/-! ## All reductions -/

/-- Trivia lines in an account are comments or blank lines, and these are accounted for apart. -/
theorem perm_comments {q : Program} (h : Account annotate n p q origins gone notes) :
    List.Perm (q.lineComments ++ origins.flatMap (Origin.parts annotate))
      (p.comments ++ notes) := by
  have hcomments (texts : List String) :
      (texts.map Trivia.comment).filterMap Trivia.comment? = texts := by
    rw [List.filterMap_map]
    exact List.filterMap_some
  have htrivia := h.trivia.filterMap Trivia.comment?
  rw [List.filterMap_append, List.filterMap_append, hcomments, hcomments] at htrivia
  exact htrivia

theorem blankCount_eq {q : Program} (h : Account annotate n p q origins gone notes) :
    q.blankCount = p.blankCount := by
  have hcomments (texts : List String) : (texts.map Trivia.comment).count .blank = 0 := by
    rw [List.count_eq_zero, List.mem_map]
    rintro ⟨text, -, heq⟩
    cases heq
  have hall := (perm_flatMap_allTrivia p).count_eq .blank
  have htrivia := h.trivia.count_eq .blank
  rw [List.count_append, hcomments] at hall
  rw [List.count_append, List.count_append, hcomments, hcomments, hall] at htrivia
  exact htrivia

end Account

/-- **What optimizing keeps.**  All labels keep their order, and all blank lines are kept.  What is
    left comes from statements of the program in their order: it says the same as one of them, is
    the `mov` for a `push` and a `pop`, or is loose.  All others have gone, and were a `push`, a
    `pop` or an unconditional branch.  The comments on lines of their own, with the parts of those
    behind statements, are all the comments of the program, and, where they are wanted, one note
    on each reduction. -/
theorem optimize_conserves (annotate : Bool) (p : Program) :
    ∃ (q : Program) (n : Nat), optimize annotate p = (q, n)
      ∧ q.flatMap (·.labels) = p.flatMap (·.labels)
      ∧ q.blankCount = p.blankCount
      ∧ ∃ (origins : List Origin) (gone : List Statement) (notes : List String),
        q.map Statement.ownLine = origins.map (Origin.ownLine annotate)
        ∧ (origins.flatMap Origin.sources).Sublist p
        ∧ List.Perm p (origins.flatMap Origin.sources ++ gone)
        ∧ (∀ s ∈ gone, isRemovable s = true)
        ∧ List.Perm (q.lineComments ++ origins.flatMap (Origin.parts annotate))
            (p.comments ++ notes)
        ∧ notes.length = (if annotate then n else 0)
        ∧ ∀ note ∈ notes, IsNote note := by
  obtain ⟨origins, gone, notes, h⟩ :=
    (Account.refl annotate p).run (optimize_reductions annotate p)
  rw [Nat.zero_add] at h
  exact ⟨_, _, rfl, (optimize_lineage annotate p).labels, h.blankCount_eq, origins, gone, notes,
    h.ownLines, h.order, h.statements, h.removable, h.perm_comments, h.noted, h.explains⟩

end Peephole

end AnnaToolchain
