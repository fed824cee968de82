import AnnaToolchain.Operand
import AnnaToolchain.Program.Statement

/-! # Peephole optimization

    A statement is looked at together with the one after it, and reduced
    by the first rule that applies:

    1. `push s, a` before `pop s, b`: both go if `a` and `b` are one
       register, and `mov b, a` takes their place if they are not;
    2. an unconditional branch to the next statement goes;
    3. an unconditional branch after an unconditional branch goes.

    In rules 1 and 3 no label may be on the second statement.  The labels
    and trivia of statements that go move to the statement after them.

    Every reduction leaves fewer statements with a mnemonic, so reducing
    ends. -/

namespace AnnaToolchain.Peephole

/-! ## Reading statements -/

/-- Whether two operand texts name one register. -/
def sameRegister (a b : String) : Bool :=
  (Text.trim a).toLower == (Text.trim b).toLower

/-- The stack register and the value register of a `push`. -/
def pushOperands? (s : Statement) : Option (String × String) :=
  match s.op, s.operands with
  | some (.pseudo .push), [sp, value] => some (sp, value)
  | _, _ => none

/-- The stack register and the value register of a `pop`. -/
def popOperands? (s : Statement) : Option (String × String) :=
  match s.op, s.operands with
  | some (.pseudo .pop), [sp, value] => some (sp, value)
  | _, _ => none

/-- The target of an unconditional branch, `br x` or `beq r0, x`. -/
def branchTarget? (s : Statement) : Option String :=
  match s.op, s.operands with
  | some (.pseudo .br), [target] => some target
  | some (.real (.branch .eq)), [reg, target] =>
    if sameRegister reg "r0" then some target else none
  | _, _ => none

/-- The label a branch target refers to, if it is one. -/
def targetLabel? (target : String) : Option String :=
  match Text.trimChars target.toList with
  | '&' :: name => some (String.ofList name)
  | _ => none

/-- Whether a branch to `target` goes to the statement `next`.  A label on `.def` names a value and
    not an address. -/
def goesToNext (target : String) (next : Option Statement) : Bool :=
  match targetLabel? target with
  | some label => next.any fun s => s.op != some (.directive .define) && s.labels.contains label
  | none =>
    match Operand.parse target >>= Operand.asInt with
    | .ok n => n == 0
    | .error _ => false

/-- The statement after the current one, if the two can be treated as a pair. -/
def partner? (rest : List Statement) : Option Statement :=
  rest.head?.filter fun s => s.isReal && s.labels.isEmpty

/-! ## Places in a program -/

/-- A place in a program: the statements before it, last first, and the statements from it on. -/
structure Place where
  before : List Statement
  after : List Statement
  deriving DecidableEq

namespace Place

/-- The statements of the program. -/
def program (p : Place) : Program :=
  p.before.reverse ++ p.after

/-- The number of statements with a mnemonic. -/
def realCount (p : Place) : Nat :=
  p.before.countP Statement.isReal + p.after.countP Statement.isReal

/-- One statement back, if there is one. -/
def back (p : Place) : Place :=
  match p.before with
  | s :: before => ⟨before, s :: p.after⟩
  | [] => p

theorem realCount_cons (before rest : List Statement) (s : Statement) :
    (Place.mk before (s :: rest)).realCount
      = (Place.mk before rest).realCount + if s.isReal then 1 else 0 := by
  simp only [realCount, List.countP_cons]
  omega

theorem realCount_cons_before (before rest : List Statement) (s : Statement) :
    (Place.mk (s :: before) rest).realCount
      = (Place.mk before rest).realCount + if s.isReal then 1 else 0 := by
  simp only [realCount, List.countP_cons]
  omega

@[simp] theorem realCount_back (p : Place) : p.back.realCount = p.realCount := by
  obtain ⟨before, after⟩ := p
  cases before with
  | nil => rfl
  | cons s before => simp [back, realCount, List.countP_cons]; omega

@[simp] theorem program_back (p : Place) : p.back.program = p.program := by
  obtain ⟨before, after⟩ := p
  cases before <;> simp [back, program]

end Place

/-! ## Reducing -/

/-- Gives the labels and trivia of statements that went to the statement at `p`.  At the end of the
    program labels stay behind in a loose statement, and trivia alone goes to the statement
    before. -/
def inherit (p : Place) (labels : List String) (trivia : List Trivia) : Place :=
  match p.after, p.before with
  | next :: rest, before =>
    ⟨before,
      { next with labels := labels ++ next.labels, leading := trivia ++ next.leading } :: rest⟩
  | [], last :: earlier =>
    if labels = [] then ⟨{ last with trailing := last.trailing ++ trivia } :: earlier, []⟩
    else ⟨last :: earlier, [Statement.loose labels trivia 0]⟩
  | [], [] =>
    if labels = [] ∧ trivia = [] then ⟨[], []⟩ else ⟨[], [Statement.loose labels trivia 0]⟩

/-- Removes statements that stood at `p`, with a note on why. -/
def discard (p : Place) (removed : List Statement) (note : Option String) : Place :=
  inherit p (removed.flatMap (·.labels))
    (removed.flatMap Statement.allTrivia ++ note.toList.map .comment)

/-- The `mov` that takes the place of a `push` of `a` and a `pop` to `b`. -/
def movOf (push pop : Statement) (a b : String) (note : Option String) : Statement :=
  let comments := push.comment.toList ++ pop.comment.toList ++ note.toList
  { labels := push.labels
    op := some (.pseudo .mov)
    operands := [b, a]
    comment := if comments = [] then none else some (String.intercalate "; " comments)
    leading := push.leading ++ pop.leading
    trailing := push.trailing ++ pop.trailing
    line := push.line }

/-- The note left on a reduction, if notes are wanted. -/
def noteIf (annotate : Bool) (note : String) : Option String :=
  if annotate then some note else none

/-- The first rule, on a pair of statements. -/
def reducePair? (annotate : Bool) (before : List Statement) (s : Statement)
    (rest : List Statement) : Option Place :=
  match rest with
  | [] => none
  | next :: rest =>
    match pushOperands? s, (partner? [next]).bind popOperands? with
    | some (sp, a), some (sp', b) =>
      if sameRegister sp sp' then
        if sameRegister a b then
          some (discard ⟨before, rest⟩ [s, next] (noteIf annotate ("removed push/pop of " ++ a)))
        else
          some ⟨before, movOf s next a b (noteIf annotate "push/pop became mov") :: rest⟩
      else none
    | _, _ => none

/-- The second and the third rule, on an unconditional branch. -/
def reduceBranch? (annotate : Bool) (before : List Statement) (s : Statement)
    (rest : List Statement) : Option Place :=
  match branchTarget? s with
  | none => none
  | some target =>
    if goesToNext target rest.head? then
      some (discard ⟨before, rest⟩ [s] (noteIf annotate "removed branch to next statement"))
    else
      match rest with
      | [] => none
      | next :: rest =>
        if ((partner? [next]).bind branchTarget?).isSome then
          some (discard ⟨s :: before, rest⟩ [next]
            (noteIf annotate "removed unreachable branch")).back
        else none

/-- The program after the first rule that applies to the statement `s`. -/
def reduce? (annotate : Bool) (before : List Statement) (s : Statement)
    (rest : List Statement) : Option Place :=
  match reducePair? annotate before s rest with
  | some p => some p
  | none => reduceBranch? annotate before s rest

/-! ## Every reduction makes the program smaller -/

theorem realCount_inherit (p : Place) (labels : List String) (trivia : List Trivia) :
    (inherit p labels trivia).realCount = p.realCount := by
  obtain ⟨before, after⟩ := p
  cases after with
  | cons next rest => rfl
  | nil =>
    cases before with
    | cons last earlier =>
      by_cases h : labels = []
      · simp only [inherit, h, if_true]; rfl
      · simp only [inherit, h, if_false]; rfl
    | nil =>
      by_cases h : labels = [] ∧ trivia = []
      · simp only [inherit, h]; rfl
      · simp only [inherit, h]; rfl

theorem realCount_discard (p : Place) (removed : List Statement) (note : Option String) :
    (discard p removed note).realCount = p.realCount :=
  realCount_inherit p _ _

theorem isReal_of_pushOperands? {s : Statement} {x : String × String}
    (h : pushOperands? s = some x) : s.isReal = true := by
  unfold pushOperands? at h
  split at h
  · next hop _ => simp [Statement.isReal, hop]
  · cases h

theorem isReal_of_branchTarget? {s : Statement} {x : String}
    (h : branchTarget? s = some x) : s.isReal = true := by
  unfold branchTarget? at h
  split at h
  · next hop _ => simp [Statement.isReal, hop]
  · next hop _ => simp [Statement.isReal, hop]
  · cases h

theorem isReal_of_partner? {s : Statement} {rest : List Statement}
    (h : partner? (s :: rest) ≠ none) : s.isReal = true := by
  simp only [partner?, List.head?_cons, Option.filter] at h
  split at h
  · next hs => simp only [Bool.and_eq_true] at hs; exact hs.1
  · simp at h

theorem realCount_reducePair?_lt {annotate : Bool} {before rest : List Statement} {s : Statement}
    {p : Place} (h : reducePair? annotate before s rest = some p) :
    p.realCount < (Place.mk before (s :: rest)).realCount := by
  unfold reducePair? at h
  split at h
  · cases h
  · next second rest =>
    split at h
    · next sp a sp' b hpush hpop =>
      have hs := isReal_of_pushOperands? hpush
      have hn : second.isReal = true := by
        refine @isReal_of_partner? second [] ?_
        intro hnone
        simp [hnone] at hpop
      rw [Place.realCount_cons, Place.realCount_cons, hs, hn]
      split at h
      · split at h
        · cases h
          rw [realCount_discard]
          simp only [if_true]
          omega
        · cases h
          have : (movOf s second a b (noteIf annotate "push/pop became mov")).isReal = true := rfl
          rw [Place.realCount_cons, this]
          simp only [if_true]
          omega
      · cases h
    · cases h

theorem realCount_reduceBranch?_lt {annotate : Bool} {before rest : List Statement}
    {s : Statement} {p : Place} (h : reduceBranch? annotate before s rest = some p) :
    p.realCount < (Place.mk before (s :: rest)).realCount := by
  unfold reduceBranch? at h
  split at h
  · cases h
  · next target htarget =>
    have hs := isReal_of_branchTarget? htarget
    split at h
    · cases h
      rw [realCount_discard, Place.realCount_cons, hs]
      simp
    · cases rest with
      | nil => cases h
      | cons second rest =>
        simp only at h
        split at h
        · next hbranch =>
          have hn : second.isReal = true := by
            refine @isReal_of_partner? second [] ?_
            intro hnone
            simp [hnone] at hbranch
          cases h
          rw [Place.realCount_back, realCount_discard, Place.realCount_cons_before,
            Place.realCount_cons, Place.realCount_cons, hs, hn]
          simp only [if_true]
          omega
        · cases h

theorem realCount_reduce?_lt {annotate : Bool} {before rest : List Statement} {s : Statement}
    {p : Place} (h : reduce? annotate before s rest = some p) :
    p.realCount < (Place.mk before (s :: rest)).realCount := by
  unfold reduce? at h
  split at h
  · next hpair => cases h; exact realCount_reducePair?_lt hpair
  · exact realCount_reduceBranch?_lt h

/-! ## The optimizer -/

/-- Goes through the program from a place on, stepping back after a reduction since the statement
    before may now begin a pair.  Returns the program and the number of reductions. -/
def sweepFrom (annotate : Bool) (reductions : Nat) (before : List Statement) :
    List Statement → Program × Nat
  | [] => (before.reverse, reductions)
  | s :: rest =>
    match h : reduce? annotate before s rest with
    | some p => sweepFrom annotate (reductions + 1) p.back.before p.back.after
    | none => sweepFrom annotate reductions (s :: before) rest
termination_by after => ((Place.mk before after).realCount, after.length)
decreasing_by
  · apply Prod.Lex.left
    have := realCount_reduce?_lt h
    rwa [← Place.realCount_back] at this
  · have : (Place.mk (s :: before) rest).realCount = (Place.mk before (s :: rest)).realCount := by
      rw [Place.realCount_cons, Place.realCount_cons_before]
    rw [this]
    apply Prod.Lex.right
    simp

/-- One pass over a program. -/
def sweep (annotate : Bool) (p : Program) : Program × Nat :=
  sweepFrom annotate 0 [] p

theorem sweepFrom_realCount (annotate : Bool) (reductions : Nat) (before after : List Statement) :
    Program.realCount (sweepFrom annotate reductions before after).1
        + (sweepFrom annotate reductions before after).2
      ≤ (Place.mk before after).realCount + reductions := by
  fun_induction sweepFrom annotate reductions before after with
  | case1 reductions before => simp [Program.realCount, Place.realCount]
  | case2 reductions before s rest p h ih =>
    have := realCount_reduce?_lt h
    have hb := Place.realCount_back p
    have he : (Place.mk p.back.before p.back.after).realCount = p.back.realCount := rfl
    omega
  | case3 reductions before s rest h ih =>
    rw [Place.realCount_cons_before] at ih
    rw [Place.realCount_cons]
    exact ih

/-- Every reduction of a pass takes away at least one statement with a mnemonic. -/
theorem sweep_realCount (annotate : Bool) (p : Program) :
    (sweep annotate p).1.realCount + (sweep annotate p).2 ≤ p.realCount := by
  have := sweepFrom_realCount annotate 0 [] p
  simpa [sweep, Place.realCount, Program.realCount] using this

/-- Goes through a program until nothing is left to reduce.  Returns the program and the number of
    reductions. -/
def optimize (annotate : Bool) (p : Program) : Program × Nat :=
  match h : sweep annotate p with
  | (p', 0) => (p', 0)
  | (p', reductions + 1) =>
    let rest := optimize annotate p'
    (rest.1, reductions + 1 + rest.2)
termination_by p.realCount
decreasing_by
  have := sweep_realCount annotate p
  rw [h] at this
  simp only at this
  omega

end AnnaToolchain.Peephole
