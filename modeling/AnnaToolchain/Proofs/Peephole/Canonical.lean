import AnnaToolchain.Proofs.Peephole.Conservation
import AnnaToolchain.Proofs.Peephole.Printing
import AnnaToolchain.Proofs.Program.Canonical
import AnnaToolchain.Proofs.Token.Reference

/-! # Canonical text of optimized programs

    Comments on lines of their own stay as they were read, for they are moved
    and never changed (`Tidy.run`).  The comment of a `mov` is joined
    from those of a `push` and a `pop`.  Joined to another comment, an empty
    one leaves the separator at the end, and the white space in it is lost
    when the text is read again.  In all other cases the text of an optimized
    program is canonical (`optimize_canonical`). -/

namespace AnnaToolchain

/-! ## Joined comments -/

namespace Text

/-- There is no white space at the front. -/
def StartsVisibly (cs : List Char) : Prop :=
  ∀ c, cs.head? = some c → isBlank c = false

theorem StartsVisibly.append {cs cs' : List Char} (h : StartsVisibly cs) (h' : StartsVisibly cs') :
    StartsVisibly (cs ++ cs') := by
  intro c hc
  rw [List.head?_append, Option.or_eq_some_iff] at hc
  rcases hc with hc | ⟨-, hc⟩
  · exact h c hc
  · exact h' c hc

theorem StartsVisibly.intercalate {sep : List Char} (hsep : StartsVisibly sep)
    {css : List (List Char)} (h : ∀ cs ∈ css, StartsVisibly cs) :
    StartsVisibly (sep.intercalate css) := by
  induction css with
  | nil => nofun
  | cons cs css ih =>
    obtain ⟨hfirst, hothers⟩ := List.forall_mem_cons.mp h
    cases css with
    | nil =>
      rw [List.intercalate_singleton]
      exact hfirst
    | cons cs' css =>
      rw [List.intercalate_cons_cons]
      exact (hfirst.append hsep).append (ih hothers)

theorem intercalate_concat {sep last : List Char} {init : List (List Char)} (hne : init ≠ []) :
    sep.intercalate (init ++ [last]) = sep.intercalate init ++ (sep ++ last) := by
  induction init with
  | nil => exact absurd rfl hne
  | cons cs init ih =>
    cases init with
    | nil =>
      rw [List.singleton_append, List.intercalate_cons_cons, List.intercalate_singleton,
        List.intercalate_singleton, List.append_assoc]
    | cons cs' init =>
      have hrest := ih (List.cons_ne_nil _ _)
      rw [List.cons_append, List.cons_append, List.intercalate_cons_cons, ← List.cons_append,
        hrest, List.intercalate_cons_cons, List.append_assoc (cs ++ sep)]

theorem trim_eq_self_iff {s : String} : trim s = s ↔ trimChars s.toList = s.toList := by
  unfold trim
  constructor
  · intro h
    have hlist := congrArg String.toList h
    rwa [String.toList_ofList] at hlist
  · intro h
    rw [h, String.ofList_toList]

/-- Trimmed texts that are joined are a trimmed text, unless the last of several is empty. -/
theorem trim_join_iff {init : List String} {last : String} (hinit : ∀ c ∈ init, trim c = c)
    (hlast : trim last = last) :
    trim (String.intercalate "; " (init ++ [last])) = String.intercalate "; " (init ++ [last])
      ↔ init = [] ∨ last ≠ "" := by
  by_cases hne : init = []
  · rw [hne, List.nil_append, String.intercalate_singleton]
    exact ⟨fun _ => .inl rfl, fun _ => hlast⟩
  have hends := trimChars_eq_self_iff.mp (trim_eq_self_iff.mp hlast)
  have hsep : StartsVisibly "; ".toList := by
    intro c hc
    cases hc
    decide
  have hfirst : StartsVisibly (("; ".toList).intercalate (init.map String.toList)) := by
    refine hsep.intercalate fun cs hcs => ?_
    obtain ⟨c, hc, rfl⟩ := List.mem_map.mp hcs
    exact (trimChars_eq_self_iff.mp (trim_eq_self_iff.mp (hinit c hc))).1
  have hchars : (String.intercalate "; " (init ++ [last])).toList
      = ("; ".toList).intercalate (init.map String.toList) ++ ("; ".toList ++ last.toList) := by
    rw [String.toList_intercalate, List.map_append, List.map_singleton]
    exact intercalate_concat fun hnil => hne (List.map_eq_nil_iff.mp hnil)
  rw [trim_eq_self_iff, hchars, trimChars_eq_self_iff, or_iff_right hne]
  constructor
  · rintro ⟨-, hvisible⟩ rfl
    -- the blank of the separator is the last character
    have hblank := hvisible ' ' (by simp)
    exact absurd hblank (by decide)
  · intro hlastNe
    have hnil : last.toList ≠ [] := fun hnil => hlastNe (String.toList_eq_nil_iff.mp hnil)
    refine ⟨hfirst.append (hsep.append hends.1), fun c hc => hends.2 c ?_⟩
    rwa [← List.append_assoc, List.getLast?_append_of_ne_nil _ hnil] at hc

end Text

/-! ## Notes -/

namespace Token

/-- There is no white space in a word, whatever it starts with. -/
theorem visible_of_wordRun {c : Char} {run : List Char} (hc : Text.isBlank c = false)
    (hrun : run.length = (wordRun run).length) : ∀ d ∈ c :: run, Text.isBlank d = false := by
  have hword : wordRun run = run := (List.takeWhile_prefix _).eq_of_length hrun.symm
  refine List.forall_mem_cons.mpr ⟨hc, fun d hd => ?_⟩
  rw [← hword] at hd
  exact Text.isBlank_of_isWordChar (isWordChar_of_mem_wordRun hd)

/-- The last character of an operand is not white space. -/
theorem endsVisibly_of_spells {token : Token} {text : String} (h : Spells token text)
    (htoken : token.isOperand = true) :
    text.toList ≠ [] ∧ ∀ c, text.toList.getLast? = some c → Text.isBlank c = false := by
  obtain ⟨c, run, htext, -, hscan⟩ := h
  have hfound := hscan [] stops_nil
  rw [List.append_nil] at hfound
  rw [htext]
  refine ⟨List.cons_ne_nil _ _, fun d hd => ?_⟩
  have hmem : d ∈ c :: run := List.mem_of_mem_getLast? hd
  generalize hn : run.length = n at hfound
  cases scanned_of_scan hfound with
  | colon | comma | comment | directive => cases htoken
  | text hclosing _ =>
    -- the quote at the end
    obtain ⟨body, after, rfl, hm, -⟩ := exists_of_closing? hclosing
    rw [List.length_append, List.length_cons] at hn
    obtain rfl : after = [] := List.length_eq_zero_iff.mp (by omega)
    rw [← List.cons_append, List.getLast?_concat] at hd
    rw [← Option.some.inj hd]
    decide
  | label | signed => exact visible_of_wordRun (by decide) hn d hmem
  | unsigned hc _ =>
    have hvisible := Text.isBlank_of_isWordChar (Text.isWordChar_of_isDigit hc)
    exact visible_of_wordRun hvisible hn d hmem
  | register hc _ =>
    have hvisible : Text.isBlank c = false := by
      rcases hc.1 with rfl | rfl
      · decide
      · decide
    exact visible_of_wordRun hvisible hn d hmem
  | name hc _ =>
    have hvisible := Text.isBlank_of_isWordChar (Text.isWordChar_of_isNameStart hc)
    exact visible_of_wordRun hvisible hn d hmem

end Token

namespace Peephole

/-- The note on a `push` and a `pop` that went together is trimmed, for it ends in an operand. -/
theorem isReadComment_cancelled {a : String} (ha : IsOperandText a) :
    IsReadComment ("removed push/pop of " ++ a) := by
  have hstart : IsCommentText "removed push/pop of " := ⟨by decide, by decide⟩
  refine ⟨isCommentText_append hstart ha.isLine, ?_⟩
  obtain ⟨token, hspells, htoken⟩ := ha
  obtain ⟨hne, hlast⟩ := Token.endsVisibly_of_spells hspells htoken
  rw [Text.trim_eq_self_iff, String.toList_append, Text.trimChars_eq_self_iff]
  refine ⟨fun c hc => ?_, fun c hc => hlast c ?_⟩
  · cases hc
    decide
  · rwa [List.getLast?_append_of_ne_nil _ hne] at hc

/-! ## What is joined -/

namespace Origin

/-- On its line an empty comment has been joined to another one, and no note comes after it. -/
def JoinsEmpty (annotate : Bool) : Origin → Prop
  | merged push pop _ _ _ _ _ _ _ =>
    annotate = false ∧ push.comment.isSome = true ∧ pop.comment = some ""
  | kept _ | loose => False

/-- The comment of a `mov` that is joined from trimmed ones. -/
theorem trimmed_merged_iff {annotate : Bool} {push pop : Statement} {sp a sp' b : String}
    {hpush : pushOperands? push = some (sp, a)} {hpop : popOperands? pop = some (sp', b)}
    {hsp : sameRegister sp sp' = true} {init : List String} {last : String}
    (h : parts annotate (merged push pop sp a sp' b hpush hpop hsp) = init ++ [last])
    (hinit : ∀ c ∈ init, Text.trim c = c) (hlast : Text.trim last = last) :
    ((merged push pop sp a sp' b hpush hpop hsp).ownLine annotate).2.2.map Text.trim
        = ((merged push pop sp a sp' b hpush hpop hsp).ownLine annotate).2.2
      ↔ init = [] ∨ last ≠ "" := by
  have hcomment : ((merged push pop sp a sp' b hpush hpop hsp).ownLine annotate).2.2
      = some (String.intercalate "; " (init ++ [last])) := by
    simp only [ownLine, h]
    rw [if_neg (by simp)]
  rw [hcomment, Option.map_some, Option.some.injEq]
  exact Text.trim_join_iff hinit hlast

/-- The comment of a `mov` that comes from trimmed ones is trimmed, unless the last is empty. -/
theorem trimmed_iff {annotate : Bool} {o : Origin} (h : ∀ s ∈ o.sources, s.HasTrimmedComment) :
    (o.ownLine annotate).2.2.map Text.trim = (o.ownLine annotate).2.2
      ↔ ¬ o.JoinsEmpty annotate := by
  cases o with
  | kept s =>
    have hs : s.HasTrimmedComment := h s List.mem_cons_self
    exact ⟨fun _ => id, fun _ => hs⟩
  | loose => exact ⟨fun _ => id, fun _ => rfl⟩
  | merged push pop sp a sp' b hpush hpop hsp =>
    obtain ⟨htrimmed, htrimmed'⟩ := List.forall_mem_cons.mp h
    have htrimmed' := List.forall_mem_singleton.mp htrimmed'
    have hpushed : ∀ c ∈ push.comment.toList, Text.trim c = c := fun c hc =>
      Statement.hasTrimmedComment_iff.mp htrimmed c (Option.mem_toList.mp hc)
    have hpopped : ∀ c ∈ pop.comment.toList, Text.trim c = c := fun c hc =>
      Statement.hasTrimmedComment_iff.mp htrimmed' c (Option.mem_toList.mp hc)
    unfold JoinsEmpty
    cases annotate with
    | true =>
      -- the note comes last
      have hnote : Text.trim "push/pop became mov" = "push/pop became mov" := by decide +kernel
      rw [trimmed_merged_iff rfl (List.forall_mem_append.mpr ⟨hpushed, hpopped⟩) hnote]
      simp
    | false =>
      cases hcomment : pop.comment with
      | some c =>
        have hparts : parts false (merged push pop sp a sp' b hpush hpop hsp)
            = push.comment.toList ++ [c] := by
          simp [parts, noteIf, hcomment]
        rw [trimmed_merged_iff hparts hpushed (hpopped c (by rw [hcomment]; simp))]
        simp [hcomment, Option.isSome_iff_ne_none, imp_iff_not_or]
      | none =>
        cases hfirst : push.comment with
        | some c =>
          have hparts : parts false (merged push pop sp a sp' b hpush hpop hsp) = [] ++ [c] := by
            simp [parts, noteIf, hcomment, hfirst]
          rw [trimmed_merged_iff hparts (List.forall_mem_nil _) (hpushed c (by rw [hfirst]; simp))]
          simp [hcomment]
        | none =>
          have hparts : parts false (merged push pop sp a sp' b hpush hpop hsp) = [] := by
            simp [parts, noteIf, hcomment, hfirst]
          simp [ownLine, hparts, hfirst]

end Origin

/-! ## Programs with trimmed lines of comment -/

/-- The operands can be read, and the comment is trimmed if the statement may go. -/
structure Movable (s : Statement) : Prop where
  operands : ∀ text ∈ s.operands, IsOperandText text
  comment : isRemovable s = true → ∀ c, s.comment = some c → IsReadComment c

/-- The lines of comment are trimmed, and so is all that may become one. -/
structure Tidy (p : Program) : Prop where
  around : ∀ c, .comment c ∈ p.flatMap Statement.around → IsReadComment c
  movable : ∀ s ∈ p, Movable s

theorem Movable.congr {s s' : Statement} (h : Movable s) (hline : s'.ownLine = s.ownLine) :
    Movable s' := by
  obtain ⟨hop, hoperands, hcomment⟩ : s'.op = s.op ∧ s'.operands = s.operands
      ∧ s'.comment = s.comment := by
    simpa only [Statement.ownLine, Prod.mk.injEq] using hline
  refine ⟨by rw [hoperands]; exact h.operands, fun hremovable => ?_⟩
  rw [isRemovable_congr hop hoperands] at hremovable
  rw [hcomment]
  exact h.comment hremovable

theorem movable_loose : Movable {} :=
  ⟨List.forall_mem_nil _, fun _ _ hnone => by cases hnone⟩

namespace Tidy

variable {p : Program} {before removed rest : List Statement}

theorem of_readable (h : p.Readable) : Tidy p := by
  refine ⟨fun c hc => ?_, fun s hs => ?_⟩
  · obtain ⟨s, hs, hmem⟩ := List.mem_flatMap.mp hc
    have hwritten := (h.statements s hs).written
    exact (List.mem_append.mp hmem).elim (hwritten.leading c) (hwritten.trailing c)
  · have hwritten := (h.statements s hs).written
    exact ⟨hwritten.operands, fun _ => hwritten.comment⟩

theorem of_around (h : Tidy p) {s : Statement} (hs : s ∈ p) (c : String)
    (hc : .comment c ∈ s.leading ++ s.trailing) : IsReadComment c :=
  h.around c (List.mem_flatMap.mpr ⟨s, hs, hc⟩)

/-- Whatever is on and around a statement that may go is trimmed. -/
theorem of_allTrivia (h : Tidy p) {s : Statement} (hs : s ∈ p) (hremovable : isRemovable s = true)
    (c : String) (hc : .comment c ∈ s.allTrivia) : IsReadComment c := by
  unfold Statement.allTrivia at hc
  rw [List.mem_append, List.mem_append] at hc
  rcases hc with (hc | hc) | hc
  · exact h.of_around hs c (List.mem_append_left _ hc)
  · obtain ⟨c', hc', heq⟩ := List.mem_map.mp hc
    obtain rfl := Trivia.comment.inj heq
    exact (h.movable s hs).comment hremovable c' (Option.mem_toList.mp hc')
  · exact h.of_around hs c (List.mem_append_right _ hc)

/-- What goes leaves lines of comment that are trimmed. -/
theorem discard {note : Option String} (h : Tidy (before.reverse ++ (removed ++ rest)))
    (hremoved : ∀ s ∈ removed, isRemovable s = true)
    (hnote : ∀ c, note = some c → IsReadComment c) :
    Tidy (discard ⟨before, rest⟩ removed note).program := by
  have hkept : ∀ s ∈ before.reverse ++ rest, s ∈ before.reverse ++ (removed ++ rest) := by
    intro s hs
    exact (List.mem_append.mp hs).elim (List.mem_append_left _) fun hs =>
      List.mem_append_right _ (List.mem_append_right _ hs)
  have hgone : ∀ s ∈ removed, s ∈ before.reverse ++ (removed ++ rest) := fun s hs =>
    List.mem_append_right _ (List.mem_append_left _ hs)
  constructor
  case around =>
    -- a line of comment was one before, or was on a statement that goes, or is the note
    intro c hc
    have hmem := (perm_around_inherit ⟨before, rest⟩ _ _).mem_iff.mp hc
    rw [List.mem_append, List.mem_append] at hmem
    rcases hmem with hmem | hmem | hmem
    · obtain ⟨s, hs, hmem⟩ := List.mem_flatMap.mp hmem
      exact h.of_around (hkept s hs) c hmem
    · obtain ⟨s, hs, hmem⟩ := List.mem_flatMap.mp hmem
      exact h.of_allTrivia (hgone s hs) (hremoved s hs) c hmem
    · obtain ⟨c', hc', heq⟩ := List.mem_map.mp hmem
      rw [← Trivia.comment.inj heq]
      exact hnote c' (Option.mem_toList.mp hc')
  case movable =>
    -- what is kept has its own line, and a loose statement has nothing on it
    intro s hs
    obtain ⟨k, hlines⟩ := map_ownLine_inherit false ⟨before, rest⟩ (removed.flatMap (·.labels))
      (removed.flatMap Statement.allTrivia ++ note.toList.map .comment)
    have hline := List.mem_map_of_mem (f := Statement.ownLine) hs
    unfold Peephole.discard at hline
    rw [hlines] at hline
    rcases List.mem_append.mp hline with hline | hline
    · obtain ⟨s', hs', heq⟩ := List.mem_map.mp hline
      exact (h.movable s' (hkept s' hs')).congr heq.symm
    · obtain ⟨o, ho, heq⟩ := List.mem_map.mp hline
      rw [List.eq_of_mem_replicate ho] at heq
      exact movable_loose.congr heq.symm

/-- The `mov` for a `push` and a `pop` stays, so its comment is never a line of its own. -/
theorem merge {push pop : Statement} {sp a sp' b : String} {note : Option String}
    (h : Tidy (before.reverse ++ push :: pop :: rest)) (hpush : pushOperands? push = some (sp, a))
    (hpop : popOperands? pop = some (sp', b)) :
    Tidy (before.reverse ++ movOf push pop a b note :: rest) := by
  obtain ⟨-, hoperands⟩ := pushOperands?_eq_some hpush
  obtain ⟨-, hoperands'⟩ := popOperands?_eq_some hpop
  -- what stood around the two now stands around the one
  have haround : List.Perm
      ((before.reverse ++ movOf push pop a b note :: rest).flatMap Statement.around)
      ((before.reverse ++ push :: pop :: rest).flatMap Statement.around) := by
    rw [List.perm_iff_count]
    intro t
    simp only [List.flatMap_append, List.flatMap_cons, List.count_append, Statement.around, movOf]
    omega
  obtain ⟨hbefore, hmovable⟩ := List.forall_mem_append.mp h.movable
  obtain ⟨hpush', hmovable⟩ := List.forall_mem_cons.mp hmovable
  obtain ⟨hpop', hrest⟩ := List.forall_mem_cons.mp hmovable
  have ha : IsOperandText a := hpush'.operands a (by rw [hoperands]; simp)
  have hb : IsOperandText b := hpop'.operands b (by rw [hoperands']; simp)
  have hmov : Movable (movOf push pop a b note) := by
    refine ⟨List.forall_mem_cons.mpr ⟨hb, List.forall_mem_singleton.mpr ha⟩, fun hremovable => ?_⟩
    rw [isRemovable_of_op_mov rfl] at hremovable
    cases hremovable
  exact ⟨fun c hc => h.around c (haround.mem_iff.mp hc),
    List.forall_mem_append.mpr ⟨hbefore, List.forall_mem_cons.mpr ⟨hmov, hrest⟩⟩⟩

/-- **One reduction** leaves lines of comment that are trimmed. -/
theorem step {annotate : Bool} {q : Program} (h : Tidy p) (hreduction : Reduction annotate p q) :
    Tidy q := by
  cases hreduction with
  | @cancel before rest push pop sp a sp' b hpush hpop hlabels hsp hab =>
    have hpair : ∀ s ∈ [push, pop], isRemovable s = true :=
      List.forall_mem_cons.mpr ⟨isRemovable_of_push (by rw [hpush]; rfl),
        List.forall_mem_singleton.mpr (isRemovable_of_pop (by rw [hpop]; rfl))⟩
    -- the note names an operand
    obtain ⟨-, hoperands⟩ := pushOperands?_eq_some hpush
    have hmem : push ∈ before.reverse ++ push :: pop :: rest :=
      List.mem_append_right _ List.mem_cons_self
    have ha : IsOperandText a := (h.movable push hmem).operands a (by rw [hoperands]; simp)
    exact h.discard hpair (of_noteIf annotate (isReadComment_cancelled ha))
  | merge hpush hpop hlabels hsp hab => exact h.merge hpush hpop
  | @hop before rest s target htarget hnext =>
    have hbranch : ∀ s' ∈ [s], isRemovable s' = true :=
      List.forall_mem_singleton.mpr (isRemovable_of_branch (by rw [htarget]; rfl))
    have hsplit : before.reverse ++ s :: rest = before.reverse ++ ([s] ++ rest) := rfl
    rw [hsplit] at h
    exact h.discard hbranch (of_noteIf annotate ⟨⟨by decide, by decide⟩, by decide +kernel⟩)
  | @unreachable before rest s next hs hnext hlabels =>
    have hbranch : ∀ s' ∈ [next], isRemovable s' = true :=
      List.forall_mem_singleton.mpr (isRemovable_of_branch hnext)
    have hsplit : before.reverse ++ s :: next :: rest
        = (s :: before).reverse ++ ([next] ++ rest) := by simp
    rw [hsplit] at h
    exact h.discard hbranch (of_noteIf annotate ⟨⟨by decide, by decide⟩, by decide +kernel⟩)

theorem run {annotate : Bool} {n : Nat} {q : Program} (h : Tidy p)
    (hreductions : Reductions annotate n p q) : Tidy q := by
  induction hreductions with
  | none p => exact h
  | step first _ ih => exact ih (h.step first)

end Tidy

/-! ## Optimized programs -/

/-- The comments of an optimized program are trimmed, unless an empty one has been joined to
    another. -/
theorem trimmed_of_account {annotate : Bool} {n : Nat} {p q : Program} {origins : List Origin}
    {gone : List Statement} {notes : List String} (hp : p.Readable)
    (h : Account annotate n p q origins gone notes) :
    (∀ s ∈ q, s.HasTrimmedComment) ↔ ∀ o ∈ origins, ¬ o.JoinsEmpty annotate := by
  have hsources : ∀ o ∈ origins, ∀ s ∈ o.sources, s.HasTrimmedComment := by
    intro o ho s hs
    have hmem : s ∈ p := h.order.subset (List.mem_flatMap.mpr ⟨o, ho, hs⟩)
    exact Statement.hasTrimmedComment_iff.mpr fun c hc =>
      ((hp.statements s hmem).written.comment c hc).2
  calc (∀ s ∈ q, s.HasTrimmedComment)
      ↔ ∀ line ∈ q.map Statement.ownLine, line.2.2.map Text.trim = line.2.2 := by
        rw [List.forall_mem_map]
        rfl
    _ ↔ ∀ o ∈ origins, (o.ownLine annotate).2.2.map Text.trim = (o.ownLine annotate).2.2 := by
        rw [h.ownLines, List.forall_mem_map]
    _ ↔ ∀ o ∈ origins, ¬ o.JoinsEmpty annotate :=
        forall₂_congr fun o ho => Origin.trimmed_iff (hsources o ho)

/-- **Canonical text.**  An optimized program is printed as text that can be read again, with the
    comments behind its statements trimmed.  These comments are the same as before, and the text
    is printed as it is, unless one of them is joined from the comments of a `push` and a `pop`, of
    which the second is empty, and no note comes after it: then it ends in white space, which is
    lost. -/
theorem optimize_canonical {source : String} {p : Program} (h : Program.parse source = .ok p)
    (annotate : Bool) :
    ∃ (q p' : Program) (origins : List Origin), (optimize annotate p).1 = p' ∧
      p'.map Statement.ownLine = origins.map (Origin.ownLine annotate) ∧
      (origins.flatMap Origin.sources).Sublist p ∧
      Program.parse p'.render = .ok q ∧
      q.map (·.comment) = p'.map (·.comment.map Text.trim) ∧
      (q.render = p'.render ↔ ∀ o ∈ origins, ¬ o.JoinsEmpty annotate) ∧
      (q.map (·.comment) = p'.map (·.comment) ↔ ∀ o ∈ origins, ¬ o.JoinsEmpty annotate) := by
  have hreadable := Program.readable_of_parse h
  have hreductions := optimize_reductions annotate p
  obtain ⟨origins, gone, notes, haccount⟩ := (Account.refl annotate p).run hreductions
  have htidy := (Tidy.of_readable hreadable).run hreductions
  obtain ⟨q, hparse, hcomments, hrender, hsame⟩ :=
    Program.canonical_iff (printable_optimize annotate hreadable.printable)
      fun s hs => htidy.of_around hs
  have htrimmed := trimmed_of_account hreadable haccount
  exact ⟨q, _, origins, rfl, haccount.ownLines, haccount.order, hparse, hcomments,
    hrender.trans htrimmed, hsame.trans htrimmed⟩

/-- A `push` with a comment before a `pop` with an empty one. -/
def emptyComment : Program :=
  [{ op := some (.pseudo .push), operands := ["r7", "r1"], comment := some "a", line := 1 },
   { op := some (.pseudo .pop), operands := ["r7", "r2"], comment := some "", line := 2 }]

/-- What becomes of `emptyComment`. -/
def joinedEmpty : Program :=
  [{ op := some (.pseudo .mov), operands := ["r2", "r1"], comment := some "a; ", line := 1 }]

theorem optimize_emptyComment : (optimize false emptyComment).1 = joinedEmpty := by
  have hsweep : sweep false emptyComment = (joinedEmpty, 1) := by
    rw [sweep, emptyComment, sweepFrom_of_some (p := ⟨[], joinedEmpty⟩) (by decide +kernel)]
    exact sweepFrom_of_normal (by decide +kernel)
  rw [optimize_of_reduced hsweep, optimize_of_normal (by decide +kernel)]

/-- The separator is printed with the white space in it, and read without. -/
theorem optimize_canonical_emptyComment :
    Program.parse "push r7, r1 # a\npop r7, r2 #" = .ok emptyComment ∧
      (optimize false emptyComment).1 = joinedEmpty ∧
      ∃ q, Program.parse joinedEmpty.render = .ok q ∧ q.map (·.comment) = [some "a;"] ∧
        q.render ≠ joinedEmpty.render := by
  have hparse : Program.parse "push r7, r1 # a\npop r7, r2 #" = .ok emptyComment := by
    decide +kernel
  refine ⟨hparse, optimize_emptyComment, ?_⟩
  obtain ⟨q, p', origins, hoptimize, -, -, hread, hcomments, hrender, hsame⟩ :=
    optimize_canonical hparse false
  rw [optimize_emptyComment] at hoptimize
  subst hoptimize
  have htrimmed : joinedEmpty.map (·.comment.map Text.trim) = [some "a;"] := by decide +kernel
  rw [htrimmed] at hcomments
  refine ⟨q, hread, hcomments, fun heq => ?_⟩
  have hnone := hsame.mpr (hrender.mp heq)
  rw [hcomments] at hnone
  exact absurd hnone (by decide)

end Peephole

end AnnaToolchain
