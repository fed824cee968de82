import AnnaToolchain.Proofs.Outcome
import AnnaToolchain.Proofs.Peephole.Reduction

/-! # Reducing by index

    A program can also be reduced where it is: by the index of a statement,
    in a list that becomes shorter, or longer by a loose statement, while it
    is gone through.  Then every access can miss the list (`OutOfRange`).

    None does.  At every index that a pass comes to, reducing by index and
    reducing at a place come to the same (`reduceAt_eq`), and both go on at
    the same statement (`length_before_of_reduce?`).  So the optimizer by
    index is the optimizer (`optimizeAt_eq`). -/

namespace AnnaToolchain.Peephole

/-! ## Accesses -/

/-- An index that a program does not have. -/
structure OutOfRange where
  index : Nat
  length : Nat
  deriving DecidableEq, Repr

namespace Indexed

/-- The statement at an index. -/
def statementAt (p : Program) (i : Nat) : Except OutOfRange Statement :=
  match p[i]? with
  | some s => .ok s
  | none => .error ⟨i, p.length⟩

/-- Changes the statement at an index. -/
def modifyAt (p : Program) (i : Nat) (f : Statement → Statement) : Except OutOfRange Program := do
  let s ← statementAt p i
  return p.set i (f s)

/-- Takes the statements from `start` up to `stop` out of a program. -/
def extract (p : Program) (start stop : Nat) : Except OutOfRange (List Statement × Program) :=
  if start ≤ stop ∧ stop ≤ p.length then
    .ok ((p.take stop).drop start, p.take start ++ p.drop stop)
  else .error ⟨stop, p.length⟩

/-- Takes the statement at an index out of a program. -/
def remove (p : Program) (i : Nat) : Except OutOfRange (Statement × Program) := do
  let s ← statementAt p i
  return (s, p.eraseIdx i)

/-! ## The optimizer by index -/

/-- Gives labels and trivia to the statement at an index, or else to a loose statement or to the
    statement before. -/
def inheritAt (p : Program) (start : Nat) (labels : List String) (trivia : List Trivia) :
    Except OutOfRange Program :=
  if start < p.length then
    modifyAt p start fun next =>
      { next with labels := labels ++ next.labels, leading := trivia ++ next.leading }
  else
    match start with
    | 0 =>
      if labels = [] ∧ trivia = [] then .ok p else .ok (p ++ [Statement.loose labels trivia 0])
    | last + 1 =>
      if labels = [] then
        modifyAt p last fun s => { s with trailing := s.trailing ++ trivia }
      else .ok (p ++ [Statement.loose labels trivia 0])

/-- Removes the statements from `start` up to `stop`. -/
def discardAt (p : Program) (start stop : Nat) (note : Option String) :
    Except OutOfRange Program := do
  let (removed, p) ← extract p start stop
  inheritAt p start (removed.flatMap (·.labels))
    (removed.flatMap Statement.allTrivia ++ note.toList.map .comment)

/-- The statement after an index, if the two can be treated as a pair. -/
def partnerAt (p : Program) (i : Nat) : Option Statement :=
  p[i + 1]?.filter fun s => s.isReal && s.labels.isEmpty

/-- The second and the third rule at an index. -/
def reduceBranchAt (annotate : Bool) (p : Program) (i : Nat) (s : Statement) :
    Except OutOfRange (Option Program) :=
  match branchTarget? s with
  | none => .ok none
  | some target =>
    if goesToNext target p[i + 1]? then
      some <$> discardAt p i (i + 1) (noteIf annotate "removed branch to next statement")
    else if ((partnerAt p i).bind branchTarget?).isSome then
      some <$> discardAt p (i + 1) (i + 2) (noteIf annotate "removed unreachable branch")
    else .ok none

/-- The program after the first rule that applies at an index. -/
def reduceAt (annotate : Bool) (p : Program) (i : Nat) : Except OutOfRange (Option Program) := do
  let s ← statementAt p i
  match pushOperands? s, (partnerAt p i).bind popOperands? with
  | some (sp, a), some (sp', b) =>
    if sameRegister sp sp' then
      if sameRegister a b then
        some <$> discardAt p i (i + 2) (noteIf annotate ("removed push/pop of " ++ a))
      else
        let (pop, p) ← remove p (i + 1)
        some <$> modifyAt p i fun push =>
          movOf push pop a b (noteIf annotate "push/pop became mov")
    else reduceBranchAt annotate p i s
  | _, _ => reduceBranchAt annotate p i s

/-! ## Accesses inside a program -/

section

variable (front rest : List Statement) (s : Statement)

theorem getElem?_front : (front ++ s :: rest)[front.length]? = some s := by
  rw [List.getElem?_append_right (Nat.le_refl _), Nat.sub_self]
  rfl

theorem getElem?_next : (front ++ s :: rest)[front.length + 1]? = rest.head? := by
  rw [List.getElem?_append_right (Nat.le_add_right _ _), Nat.add_sub_cancel_left,
    List.head?_eq_getElem?]
  rfl

theorem statementAt_front : statementAt (front ++ s :: rest) front.length = .ok s := by
  unfold statementAt
  rw [getElem?_front]

theorem modifyAt_front (f : Statement → Statement) :
    modifyAt (front ++ s :: rest) front.length f = .ok (front ++ f s :: rest) := by
  have hset : (front ++ s :: rest).set front.length (f s) = front ++ f s :: rest := by
    rw [List.set_append, if_neg (Nat.lt_irrefl _), Nat.sub_self]
    rfl
  unfold modifyAt
  rw [statementAt_front, ok_bind, hset]
  rfl

theorem remove_front : remove (front ++ s :: rest) front.length = .ok (s, front ++ rest) := by
  have herase : (front ++ s :: rest).eraseIdx front.length = front ++ rest := by
    rw [List.eraseIdx_append_of_length_le (Nat.le_refl _), Nat.sub_self]
    rfl
  unfold remove
  rw [statementAt_front, ok_bind, herase]
  rfl

theorem extract_front (removed : List Statement) :
    extract (front ++ (removed ++ rest)) front.length (front.length + removed.length)
      = .ok (removed, front ++ rest) := by
  have hle : front.length + removed.length ≤ (front ++ (removed ++ rest)).length := by
    rw [List.length_append, List.length_append]
    omega
  unfold extract
  rw [if_pos ⟨Nat.le_add_right _ _, hle⟩, List.take_left, ← List.append_assoc,
    ← List.length_append, List.take_left, List.drop_left, List.drop_left]

end

/-! ## Reducing by index and at a place -/

section

variable {annotate : Bool} {before rest : List Statement} {s : Statement}

theorem inheritAt_eq (before after : List Statement) (labels : List String)
    (trivia : List Trivia) :
    inheritAt (before.reverse ++ after) before.length labels trivia
      = .ok (inherit ⟨before, after⟩ labels trivia).program := by
  unfold inheritAt
  cases after with
  | cons next rest =>
    have hlt : before.length < (before.reverse ++ next :: rest).length := by
      rw [List.length_append, List.length_reverse, List.length_cons]
      omega
    have hmodify := modifyAt_front before.reverse rest next fun next =>
      { next with labels := labels ++ next.labels, leading := trivia ++ next.leading }
    rw [List.length_reverse] at hmodify
    rw [if_pos hlt]
    exact hmodify
  | nil =>
    rw [List.append_nil, if_neg (by rw [List.length_reverse]; exact Nat.lt_irrefl _)]
    cases before with
    | nil =>
      by_cases hnone : labels = [] ∧ trivia = []
      · simp only [inherit, hnone, and_self, if_true]
        rfl
      · simp only [inherit, hnone, if_false]
        rfl
    | cons last earlier =>
      by_cases hlabels : labels = []
      · -- the statement before is the last one
        have hmodify := modifyAt_front earlier.reverse [] last fun s =>
          { s with trailing := s.trailing ++ trivia }
        rw [List.length_reverse] at hmodify
        simp only [inherit, hlabels, if_true, List.length_cons, List.reverse_cons, Place.program,
          List.append_nil]
        exact hmodify
      · simp only [inherit, hlabels, if_false, List.length_cons]
        rfl

theorem discardAt_eq (before removed rest : List Statement) (note : Option String) :
    discardAt (before.reverse ++ (removed ++ rest)) before.length (before.length + removed.length)
        note
      = .ok (discard ⟨before, rest⟩ removed note).program := by
  have hextract := extract_front before.reverse rest removed
  rw [List.length_reverse] at hextract
  unfold discardAt
  rw [hextract, ok_bind]
  exact inheritAt_eq before rest _ _

theorem partnerAt_eq (before rest : List Statement) (s : Statement) :
    partnerAt (before.reverse ++ s :: rest) before.length = partner? rest := by
  have hnext := getElem?_next before.reverse rest s
  rw [List.length_reverse] at hnext
  unfold partnerAt partner?
  rw [hnext]

theorem reduceBranchAt_eq (annotate : Bool) (before rest : List Statement) (s : Statement) :
    reduceBranchAt annotate (before.reverse ++ s :: rest) before.length s
      = .ok ((reduceBranch? annotate before s rest).map Place.program) := by
  have hnext := getElem?_next before.reverse rest s
  rw [List.length_reverse] at hnext
  unfold reduceBranchAt reduceBranch?
  rw [partnerAt_eq, hnext]
  cases htarget : branchTarget? s with
  | none => rfl
  | some target =>
    simp only
    by_cases hgoes : goesToNext target rest.head? = true
    · have hdiscard := discardAt_eq before [s] rest
        (noteIf annotate "removed branch to next statement")
      simp only [hgoes, if_true]
      exact congrArg (some <$> ·) hdiscard
    · simp only [hgoes, Bool.false_eq_true, if_false]
      cases rest with
      | nil => rfl
      | cons next rest =>
        have hpartner : partner? (next :: rest) = partner? [next] := rfl
        rw [hpartner]
        by_cases hbranch : ((partner? [next]).bind branchTarget?).isSome = true
        · have hdiscard := discardAt_eq (s :: before) [next] rest
            (noteIf annotate "removed unreachable branch")
          rw [List.reverse_cons, List.append_assoc] at hdiscard
          simp only [hbranch, if_true, Option.map_some, Place.program_back]
          exact congrArg (some <$> ·) hdiscard
        · simp only [hbranch, Bool.false_eq_true, if_false]
          rfl

/-- The first rule by index, on two statements in a row. -/
theorem mergeAt_eq (before rest : List Statement) (push pop : Statement)
    (mov : Statement → Statement → Statement) :
    (do
      let (pop, p) ← remove (before.reverse ++ push :: pop :: rest) (before.length + 1)
      some <$> modifyAt p before.length fun push => mov push pop)
      = .ok (some (before.reverse ++ mov push pop :: rest)) := by
  have hremove := remove_front (push :: before).reverse rest pop
  rw [List.length_reverse, List.reverse_cons, List.append_assoc, List.append_assoc] at hremove
  have hmodify := modifyAt_front before.reverse rest push fun push => mov push pop
  rw [List.length_reverse] at hmodify
  have hremove' : remove (before.reverse ++ push :: pop :: rest) (before.length + 1)
      = .ok (pop, before.reverse ++ push :: rest) := hremove
  rw [hremove', ok_bind]
  exact congrArg (some <$> ·) hmodify

/-- **One reduction.**  At the index of a place, reducing does not miss the program, and comes to
    what it comes to at the place. -/
theorem reduceAt_eq (annotate : Bool) (before rest : List Statement) (s : Statement) :
    reduceAt annotate (before.reverse ++ s :: rest) before.length
      = .ok ((reduce? annotate before s rest).map Place.program) := by
  have hfirst := statementAt_front before.reverse rest s
  rw [List.length_reverse] at hfirst
  have hbranch := reduceBranchAt_eq annotate before rest s
  unfold reduceAt reduce? reducePair?
  rw [hfirst, ok_bind, partnerAt_eq]
  cases rest with
  | nil =>
    -- without a statement after it, the first rule does not apply
    cases pushOperands? s <;> exact hbranch
  | cons next rest =>
    have hpartner : partner? (next :: rest) = partner? [next] := rfl
    rw [hpartner]
    cases hpush : pushOperands? s with
    | none => exact hbranch
    | some operands =>
      cases hpop : (partner? [next]).bind popOperands? with
      | none => simp only [hpop, hbranch]
      | some operands' =>
        obtain ⟨sp, a⟩ := operands
        obtain ⟨sp', b⟩ := operands'
        by_cases hsp : sameRegister sp sp' = true
        · by_cases hab : sameRegister a b = true
          · have hdiscard := discardAt_eq before [s, next] rest
              (noteIf annotate ("removed push/pop of " ++ a))
            simp only [hpop, hsp, hab, if_true]
            exact congrArg (some <$> ·) hdiscard
          · simp only [hpop, hsp, hab, Bool.false_eq_true, if_true, if_false]
            exact mergeAt_eq before rest s next fun push pop =>
              movOf push pop a b (noteIf annotate "push/pop became mov")
        · simp only [hpop, hsp, Bool.false_eq_true, if_false]
          exact hbranch

end

/-! ## Passes by index -/

/-- Where an index is inside a program, it is that of a place. -/
theorem exists_split {p : Program} {i : Nat} (h : i < p.length) :
    ∃ (before : List Statement) (s : Statement) (rest : List Statement),
      p = before.reverse ++ s :: rest ∧ i = before.length := by
  refine ⟨(p.take i).reverse, p[i], p.drop (i + 1), ?_, ?_⟩
  · rw [List.reverse_reverse, List.getElem_cons_drop, List.take_append_drop]
  · rw [List.length_reverse, List.length_take, Nat.min_eq_left (Nat.le_of_lt h)]

theorem lt_length_of_reduceAt {annotate : Bool} {p : Program} {i : Nat} {q : Option Program}
    (h : reduceAt annotate p i = .ok q) : i < p.length := by
  obtain ⟨s, hs, -⟩ := bind_eq_ok h
  unfold statementAt at hs
  split at hs
  · next hget => exact (List.getElem?_eq_some_iff.mp hget).1
  · cases hs

/-- **Every reduction** takes away a statement with a mnemonic. -/
theorem realCount_reduceAt_lt {annotate : Bool} {p q : Program} {i : Nat}
    (h : reduceAt annotate p i = .ok (some q)) : q.realCount < p.realCount := by
  obtain ⟨before, s, rest, rfl, rfl⟩ := exists_split (lt_length_of_reduceAt h)
  rw [reduceAt_eq] at h
  obtain ⟨place, hplace, rfl⟩ := Option.map_eq_some_iff.mp (Except.ok.inj h)
  have hlt := realCount_reduce?_lt hplace
  have hcount (p : Place) : p.program.realCount = p.realCount := by
    rw [Place.program, Program.realCount, List.countP_append, List.countP_reverse]
    rfl
  rw [hcount]
  exact Nat.lt_of_lt_of_eq hlt (hcount ⟨before, s :: rest⟩).symm

/-- Goes through a program from an index on, one index back after a reduction. -/
def sweepAt (annotate : Bool) (reductions : Nat) (p : Program) (i : Nat) :
    Except OutOfRange (Program × Nat) :=
  if i < p.length then
    match h : reduceAt annotate p i with
    | .error e => .error e
    | .ok (some q) => sweepAt annotate (reductions + 1) q (i - 1)
    | .ok none => sweepAt annotate reductions p (i + 1)
  else .ok (p, reductions)
termination_by (p.realCount, p.length - i)
decreasing_by
  · exact Prod.Lex.left _ _ (realCount_reduceAt_lt h)
  · exact Prod.Lex.right _ (by omega)

theorem sweepAt_of_some {annotate : Bool} {n i : Nat} {p q : Program}
    (h : reduceAt annotate p i = .ok (some q)) :
    sweepAt annotate n p i = sweepAt annotate (n + 1) q (i - 1) := by
  rw [sweepAt, if_pos (lt_length_of_reduceAt h)]
  split
  · next h' => rw [h] at h'; cases h'
  · next h' => rw [h] at h'; cases h'; rfl
  · next h' => rw [h] at h'; cases h'

theorem sweepAt_of_none {annotate : Bool} {n i : Nat} {p : Program}
    (h : reduceAt annotate p i = .ok none) :
    sweepAt annotate n p i = sweepAt annotate n p (i + 1) := by
  rw [sweepAt, if_pos (lt_length_of_reduceAt h)]
  split
  · next h' => rw [h] at h'; cases h'
  · next h' => rw [h] at h'; cases h'
  · rfl

theorem length_before_inherit (p : Place) (labels : List String) (trivia : List Trivia) :
    (inherit p labels trivia).before.length = p.before.length := by
  unfold inherit
  split
  · rfl
  · next hbefore =>
    split
    · rw [hbefore]
      rfl
    · rw [hbefore]
  · next hbefore =>
    split
    · rw [hbefore]
    · rw [hbefore]

theorem length_before_back (p : Place) : p.back.before.length = p.before.length - 1 := by
  unfold Place.back
  split
  · next hbefore =>
    rw [hbefore]
    rfl
  · next hbefore => rw [hbefore]; rfl

theorem length_before_of_reducePair? {annotate : Bool} {before rest : List Statement}
    {s : Statement} {place : Place} (h : reducePair? annotate before s rest = some place) :
    place.before.length = before.length := by
  unfold reducePair? at h
  split at h
  · cases h
  · split at h
    · split at h
      · split at h
        · cases h
          exact length_before_inherit _ _ _
        · cases h
          rfl
      · cases h
    · cases h

theorem length_before_of_reduceBranch? {annotate : Bool} {before rest : List Statement}
    {s : Statement} {place : Place} (h : reduceBranch? annotate before s rest = some place) :
    place.before.length = before.length := by
  unfold reduceBranch? at h
  split at h
  · cases h
  · split at h
    · cases h
      exact length_before_inherit _ _ _
    · split at h
      · cases h
      · split at h
        · cases h
          -- the branch that stays is stepped over, and back
          rw [length_before_back]
          exact congrArg (· - 1) (length_before_inherit _ _ _)
        · cases h

/-- A reduction stays where it is. -/
theorem length_before_of_reduce? {annotate : Bool} {before rest : List Statement} {s : Statement}
    {place : Place} (h : reduce? annotate before s rest = some place) :
    place.before.length = before.length := by
  unfold reduce? at h
  split at h
  · next hpair =>
    cases h
    exact length_before_of_reducePair? hpair
  · exact length_before_of_reduceBranch? h

/-- A pass by index is a pass. -/
theorem sweepAt_eq (annotate : Bool) (n : Nat) (before after : List Statement) :
    sweepAt annotate n (before.reverse ++ after) before.length
      = .ok (sweepFrom annotate n before after) := by
  fun_induction sweepFrom annotate n before after with
  | case1 n before =>
    rw [sweepAt, if_neg (by rw [List.append_nil, List.length_reverse]; exact Nat.lt_irrefl _),
      List.append_nil]
  | case2 n before s rest p h ih =>
    have hreduce := reduceAt_eq annotate before rest s
    rw [h, Option.map_some] at hreduce
    have hprogram : p.back.before.reverse ++ p.back.after = p.program := p.program_back
    -- the place has not moved, so that one statement back is one index back
    rw [hprogram, length_before_back, length_before_of_reduce? h] at ih
    rw [sweepAt_of_some hreduce]
    exact ih
  | case3 n before s rest h ih =>
    have hreduce := reduceAt_eq annotate before rest s
    rw [h, Option.map_none] at hreduce
    rw [List.reverse_cons, List.append_assoc, List.singleton_append, List.length_cons] at ih
    rw [sweepAt_of_none hreduce]
    exact ih

/-- Goes through a program by index until nothing is left to reduce. -/
def optimizeAt (annotate : Bool) (p : Program) : Except OutOfRange (Program × Nat) :=
  match h : sweepAt annotate 0 p 0 with
  | .error e => .error e
  | .ok (q, 0) => .ok (q, 0)
  | .ok (q, reductions + 1) =>
    (optimizeAt annotate q).map fun rest => (rest.1, reductions + 1 + rest.2)
termination_by p.realCount
decreasing_by
  have hsweep := sweepAt_eq annotate 0 [] p
  have hcount := sweep_realCount annotate p
  rw [show sweep annotate p = (q, reductions + 1) from
    (Except.ok.inj (h.symm.trans hsweep)).symm] at hcount
  simp only at hcount
  omega

theorem optimizeAt_of_done {annotate : Bool} {p q : Program}
    (h : sweepAt annotate 0 p 0 = .ok (q, 0)) : optimizeAt annotate p = .ok (q, 0) := by
  rw [optimizeAt]
  split
  · next h' => rw [h] at h'; cases h'
  · next h' => rw [h] at h'; cases h'; rfl
  · next h' => rw [h] at h'; cases h'

theorem optimizeAt_of_reduced {annotate : Bool} {n : Nat} {p q : Program}
    (h : sweepAt annotate 0 p 0 = .ok (q, n + 1)) :
    optimizeAt annotate p = (optimizeAt annotate q).map fun rest => (rest.1, n + 1 + rest.2) := by
  rw [optimizeAt]
  split
  · next h' => rw [h] at h'; cases h'
  · next h' => rw [h] at h'; cases h'
  · next h' => rw [h] at h'; cases h'; rfl

/-- **No index is missed.**  The optimizer by index is the optimizer. -/
theorem optimizeAt_eq (annotate : Bool) (p : Program) :
    optimizeAt annotate p = .ok (optimize annotate p) := by
  have hsweep (p : Program) : sweepAt annotate 0 p 0 = .ok (sweep annotate p) :=
    sweepAt_eq annotate 0 [] p
  fun_induction optimize annotate p with
  | case1 p q h =>
    have hdone := hsweep p
    rw [h] at hdone
    exact optimizeAt_of_done hdone
  | case2 p q n h rest ih =>
    have hreduced := hsweep p
    rw [h] at hreduced
    rw [optimizeAt_of_reduced hreduced, ih]
    rfl

end Indexed

end AnnaToolchain.Peephole
