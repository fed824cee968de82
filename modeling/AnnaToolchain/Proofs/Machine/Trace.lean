import AnnaToolchain.Proofs.Machine.Guise
import AnnaToolchain.Proofs.Outcome

/-! # What a run records

    The trace of a run is the row of instructions it executes
    (`Machine.executed`).  An instruction that fails is not executed, and
    neither is the halt word.

    What a run records about registers and memory is what the instructions of
    its trace have done (`Records`), and nothing else has changed
    (`Machine.run_records`).  Both follow by induction on the trace, from what
    one instruction records (`Machine.records_execution`). -/

namespace AnnaToolchain

/-! ## Executions -/

/-- An instruction that was executed, with the machine before and after it. -/
structure Execution where
  before : Machine
  instruction : Instruction
  after : Machine

namespace Execution

/-- It changed the register. -/
def Alters (e : Execution) (r : Register) : Prop :=
  e.after.register r ≠ e.before.register r

/-- It has that opcode and that effective address. -/
def Addresses (e : Execution) (op : Opcode) (address : Word) : Prop :=
  e.instruction.opcode = op ∧ e.before.effectiveAddress e.instruction = .ok address

/-- It loaded the word at the address. -/
def Loads (e : Execution) (address : Word) : Prop :=
  e.Addresses .lw address

/-- It stored a word at the address. -/
def Stores (e : Execution) (address : Word) : Prop :=
  e.Addresses .sw address

/-- It stored another word at the address than was there. -/
def Modifies (e : Execution) (address : Word) : Prop :=
  e.Stores address ∧ e.after.memory.read address ≠ e.before.memory.read address

end Execution

namespace Machine

/-- The execution of the instruction at the program counter, if that can be executed. -/
def execution? (m : Machine) : Option Execution :=
  match Instruction.decode (m.memory.read m.pc) with
  | .error _ => none
  | .ok i =>
    if i.isHalt then none
    else
      match m.start.execute i with
      | (_, .error _) => none
      | (m', .ok next) => some ⟨m, i, m'.advance m.registers next⟩

/-- The instructions that are executed with a number of cycles. -/
def executions : Nat → Machine → List Execution
  | 0, _ => []
  | budget + 1, m =>
    if m.atBreakpoint then []
    else
      match m.execution? with
      | none => []
      | some e => e :: if e.after.status = .halted then [] else executions budget e.after

/-- The trace of a run. -/
def executed (m : Machine) (budget : Nat) : List Execution :=
  executions budget { m with changes := .none }

end Machine

/-! ## Records -/

namespace Changes

/-- What is recorded of a cell that is accessed once more. -/
theorem flag_addAccess (c : Changes) (flag : Access → Bool)
    (hflag : ∀ x y, flag (x.union y) = (flag x || flag y)) (address : Word) (access : Access)
    (a : Word) :
    flag ((c.addAccess address access).accessOf a) = true ↔
      flag (c.accessOf a) = true ∨ address = a ∧ flag access = true := by
  rw [accessOf_addAccess]
  by_cases ha : address = a
  · simp [ha, hflag]
  · simp [ha]

theorem mem_addAccess (c : Changes) (address : Word) (access : Access) (a : Word) :
    a ∈ (c.addAccess address access).memory ↔ a ∈ c.memory ∨ address = a := by
  simp [addAccess, Std.ExtTreeMap.mem_insert, or_comm]

end Changes

/-- A record tells just what the executions of a trace did. -/
structure Reports (c : Changes) (trace : List Execution) : Prop where
  changed : ∀ r, c.changed r = true ↔ ∃ e ∈ trace, e.Alters r
  read : ∀ a, (c.accessOf a).read = true ↔ ∃ e ∈ trace, e.Loads a
  written : ∀ a, (c.accessOf a).written = true ↔ ∃ e ∈ trace, e.Stores a
  modified : ∀ a, (c.accessOf a).modified = true ↔ ∃ e ∈ trace, e.Modifies a
  mem : ∀ a, a ∈ c.memory ↔ ∃ e ∈ trace, e.Loads a ∨ e.Stores a

/-- The record `after` has what is in the record `before` and what the executions did. -/
structure Records (before after : Changes) (trace : List Execution) : Prop where
  changed : ∀ r, after.changed r = true ↔ before.changed r = true ∨ ∃ e ∈ trace, e.Alters r
  read : ∀ a, (after.accessOf a).read = true ↔
    (before.accessOf a).read = true ∨ ∃ e ∈ trace, e.Loads a
  written : ∀ a, (after.accessOf a).written = true ↔
    (before.accessOf a).written = true ∨ ∃ e ∈ trace, e.Stores a
  modified : ∀ a, (after.accessOf a).modified = true ↔
    (before.accessOf a).modified = true ∨ ∃ e ∈ trace, e.Modifies a
  mem : ∀ a, a ∈ after.memory ↔ a ∈ before.memory ∨ ∃ e ∈ trace, e.Loads a ∨ e.Stores a

namespace Records

/-- Nothing is recorded for no executions. -/
theorem nil (c : Changes) : Records c c [] := by
  constructor <;> simp

/-- What one execution records, and then those after it. -/
theorem cons {c c₁ c₂ : Changes} {e : Execution} {es : List Execution} (h : Records c c₁ [e])
    (hs : Records c₁ c₂ es) : Records c c₂ (e :: es) where
  changed r := by rw [hs.changed, h.changed]; simp [or_assoc]
  read a := by rw [hs.read, h.read]; simp [or_assoc]
  written a := by rw [hs.written, h.written]; simp [or_assoc]
  modified a := by rw [hs.modified, h.modified]; simp [or_assoc]
  mem a := by rw [hs.mem, h.mem]; simp [or_assoc]

/-- An execution that accesses one cell. -/
theorem access {c c' : Changes} {e : Execution} (address : Word) (access : Access)
    (hchanged : ∀ r, c'.changed r = true ↔ c.changed r = true ∨ e.Alters r)
    (haccessOf : ∀ a, c'.accessOf a = (c.addAccess address access).accessOf a)
    (hmem : ∀ a, a ∈ c'.memory ↔ a ∈ (c.addAccess address access).memory)
    (hloads : ∀ a, e.Loads a ↔ address = a ∧ access.read = true)
    (hstores : ∀ a, e.Stores a ↔ address = a ∧ access.written = true)
    (hmodifies : ∀ a, e.Modifies a ↔ address = a ∧ access.modified = true)
    (haccess : access.read = true ∨ access.written = true) : Records c c' [e] where
  changed r := by simp [hchanged]
  read a := by
    rw [haccessOf, c.flag_addAccess Access.read (fun _ _ => rfl)]
    simp [hloads]
  written a := by
    rw [haccessOf, c.flag_addAccess Access.written (fun _ _ => rfl)]
    simp [hstores]
  modified a := by
    rw [haccessOf, c.flag_addAccess Access.modified (fun _ _ => rfl)]
    simp [hmodifies]
  mem a := by
    rw [hmem, c.mem_addAccess]
    simp [hloads, hstores, ← and_or_left, haccess]

end Records

/-! ## One execution -/

/-- Whether an action reads or writes a cell. -/
def Action.isAccess : Action → Bool
  | .load _ _ | .store _ _ => true
  | _ => false

namespace Machine

/-- The cell that the action of an instruction accesses. -/
inductive Accesses (m : Machine) (i : Instruction) : Action → Prop where
  | load {address : Word} (hop : i.opcode = .lw) (h : m.effectiveAddress i = .ok address) :
      Accesses m i (.load i.rd address)
  | store {address : Word} (hop : i.opcode = .sw) (h : m.effectiveAddress i = .ok address) :
      Accesses m i (.store address (m.register i.rd))
  | none {a : Action} (hlw : i.opcode ≠ .lw) (hsw : i.opcode ≠ .sw) (ha : a.isAccess = false) :
      Accesses m i a

/-- **Accesses.**  Just loads and stores access a cell, at their effective address. -/
theorem accesses_of_action {m : Machine} {i : Instruction} {a : Action} (ha : m.action i = .ok a) :
    m.Accesses i a := by
  unfold action at ha
  cases hop : i.opcode with
  | math op =>
    simp only [hop] at ha
    refine .none (by simp [hop]) (by simp [hop]) ?_
    split at ha
    · split at ha
      · cases ha
        rfl
      · cases ha
    · cases ha
    · cases ha
  | lw =>
    simp only [hop, plainAction] at ha
    obtain ⟨address, haddress, ha⟩ := bind_eq_ok (mapError_eq_ok ha)
    cases ha
    exact .load hop haddress
  | sw =>
    simp only [hop, plainAction] at ha
    obtain ⟨address, haddress, ha⟩ := bind_eq_ok (mapError_eq_ok ha)
    cases ha
    exact .store hop haddress
  | input =>
    simp only [hop, plainAction] at ha
    cases ha
    exact .none (by simp [hop]) (by simp [hop]) rfl
  | output kind =>
    simp only [hop, plainAction] at ha
    cases ha
    refine .none (by simp [hop]) (by simp [hop]) ?_
    split
    · rfl
    · rfl
  | addi | shf =>
    simp only [hop, plainAction] at ha
    obtain ⟨_, -, ha⟩ := bind_eq_ok (mapError_eq_ok ha)
    obtain ⟨_, -, ha⟩ := bind_eq_ok ha
    cases ha
    exact .none (by simp [hop]) (by simp [hop]) rfl
  | jalr | lli | lui =>
    simp only [hop, plainAction] at ha
    obtain ⟨_, -, ha⟩ := bind_eq_ok (mapError_eq_ok ha)
    cases ha
    exact .none (by simp [hop]) (by simp [hop]) rfl
  | branch cond =>
    simp only [hop, plainAction] at ha
    have ha := mapError_eq_ok ha
    refine .none (by simp [hop]) (by simp [hop]) ?_
    split at ha
    · obtain ⟨_, -, ha⟩ := bind_eq_ok ha
      cases ha
      rfl
    · cases ha
      rfl

/-- Other actions leave memory alone, and record nothing by themselves. -/
theorem perform_of_not_isAccess (m : Machine) {a : Action} (ha : a.isAccess = false) :
    (m.perform a).1.memory = m.memory ∧ (m.perform a).1.changes = m.changes := by
  cases a with
  | load rd address => cases ha
  | store address value => cases ha
  | input rd =>
    unfold perform
    cases m.input <;> exact ⟨rfl, rfl⟩
  | print value =>
    obtain ⟨outputs, hprint⟩ := m.perform_print_fst value
    rw [hprint]
    exact ⟨rfl, rfl⟩
  | _ => exact ⟨rfl, rfl⟩

/-- What is executed is the action of an instruction, after which the machine goes on. -/
theorem execution?_spec {m : Machine} {e : Execution} (h : m.execution? = some e) :
    ∃ i a next, m.start.Accesses i a ∧ (m.start.perform a).2 = .ok next ∧
      e = ⟨m, i, (m.start.perform a).1.advance m.registers next⟩ := by
  unfold execution? execute at h
  split at h
  · cases h
  · next i hd =>
    split at h
    · cases h
    · cases ha : m.start.action i with
      | error fault => simp [ha] at h
      | ok a =>
        simp only [ha] at h
        rcases hp : m.start.perform a with ⟨m', fault | next⟩
        · simp [hp] at h
        · simp only [hp, Option.some.injEq] at h
          exact ⟨i, a, next, accesses_of_action ha, by rw [hp], by rw [hp, h]⟩

variable {m : Machine}

/-- An action records nothing about registers by itself. -/
theorem changed_perform (m : Machine) (a : Action) (r : Register) :
    (m.perform a).1.changes.changed r = m.changes.changed r := by
  cases hacc : a.isAccess with
  | false => rw [(m.perform_of_not_isAccess hacc).2]
  | true =>
    cases a with
    | load rd address => rfl
    | store address value => rfl
    | _ => cases hacc

/-- The registers that an instruction changes are recorded once it is done. -/
theorem changed_advance (m : Machine) (i : Instruction) (a : Action) (next : Word) (r : Register) :
    let after := (m.start.perform a).1.advance m.registers next
    after.changes.changed r = true ↔
      m.changes.changed r = true ∨ Execution.Alters ⟨m, i, after⟩ r := by
  intro after
  have hchanged : after.changes.changed r
      = (m.changes.changed r || m.registers.get r != after.registers.get r) :=
    (Changes.changed_addRegisters _ _ _ r).trans
      (congrArg (· || _) (changed_perform m.start a r))
  rw [hchanged, Bool.or_eq_true, bne_iff_ne]
  exact or_congr Iff.rfl ne_comm

/-- An instruction has one opcode and one effective address. -/
theorem addresses_iff {i : Instruction} {address : Word}
    (haddress : m.effectiveAddress i = .ok address) (after : Machine) (op : Opcode) (a : Word) :
    Execution.Addresses ⟨m, i, after⟩ op a ↔ i.opcode = op ∧ address = a := by
  refine and_congr_right fun _ => ⟨fun ha => ?_, ?_⟩
  · exact Except.ok.inj (haddress.symm.trans ha)
  · rintro rfl
    exact haddress

/-- A load records that its cell was read. -/
theorem records_load {i : Instruction} {address : Word} (hop : i.opcode = .lw)
    (haddress : m.effectiveAddress i = .ok address) (next : Word) :
    let after := (m.start.perform (.load i.rd address)).1.advance m.registers next
    Records m.changes after.changes [⟨m, i, after⟩] := by
  intro after
  have hiff := addresses_iff haddress after
  refine .access address { read := true } (m.changed_advance i _ next) (fun _ => rfl)
    (fun _ => Iff.rfl) ?_ ?_ ?_ (.inl rfl)
  · intro a
    simp [Execution.Loads, hiff, hop]
  · intro a
    simp [Execution.Stores, hiff, hop]
  · intro a
    simp [Execution.Modifies, Execution.Stores, hiff, hop]

/-- A store records that its cell was written, and whether it held another word. -/
theorem records_store {i : Instruction} {address : Word} (hop : i.opcode = .sw)
    (haddress : m.effectiveAddress i = .ok address) (value next : Word) :
    let after := (m.start.perform (.store address value)).1.advance m.registers next
    Records m.changes after.changes [⟨m, i, after⟩] := by
  intro after
  have hiff := addresses_iff haddress after
  have hread : after.memory.read address = value := m.memory.read_write_self address value
  refine .access address { written := true, modified := m.memory.read address != value }
    (m.changed_advance i _ next) (fun _ => rfl) (fun _ => Iff.rfl) ?_ ?_ ?_ (.inr rfl)
  · intro a
    simp [Execution.Loads, hiff, hop]
  · intro a
    simp [Execution.Stores, hiff, hop]
  · intro a
    unfold Execution.Modifies Execution.Stores
    rw [hiff, and_iff_right hop]
    refine and_congr_right ?_
    rintro rfl
    rw [hread, bne_iff_ne]
    exact ne_comm

/-- Any other instruction records nothing about memory. -/
theorem records_other {i : Instruction} {a : Action} (hlw : i.opcode ≠ .lw) (hsw : i.opcode ≠ .sw)
    (ha : a.isAccess = false) (next : Word) :
    let after := (m.start.perform a).1.advance m.registers next
    Records m.changes after.changes [⟨m, i, after⟩] := by
  intro after
  have hmemory : after.changes.memory = m.changes.memory := by
    show (m.start.perform a).1.changes.memory = m.start.changes.memory
    rw [(m.start.perform_of_not_isAccess ha).2]
  have haccessOf : ∀ address, after.changes.accessOf address = m.changes.accessOf address := by
    intro address
    unfold Changes.accessOf
    rw [hmemory]
  constructor
  · intro r
    simp [m.changed_advance i a next r, after]
  all_goals
    intro address
    simp [haccessOf, hmemory, Execution.Modifies, Execution.Loads, Execution.Stores,
      Execution.Addresses, hlw, hsw]

/-- **One execution** records what it has done. -/
theorem records_execution {e : Execution} (h : m.execution? = some e) :
    Records m.changes e.after.changes [e] := by
  obtain ⟨i, a, next, haccesses, -, rfl⟩ := execution?_spec h
  cases haccesses with
  | load hop haddress => exact records_load (m := m) hop haddress next
  | store hop haddress => exact records_store (m := m) hop haddress _ next
  | none hlw hsw ha => exact records_other hlw hsw ha next

/-! ## Traces -/

/-- The effective address of a load or a store is below the number of cells. -/
theorem wrap_effectiveAddress {i : Instruction} {address : Word}
    (h : m.effectiveAddress i = .ok address) : m.memory.wrap address = address := by
  unfold effectiveAddress at h
  obtain ⟨_, -, h⟩ := bind_eq_ok h
  obtain ⟨_, -, h⟩ := bind_eq_ok h
  cases h
  exact m.memory.wrap_wrap _

/-- A cell that holds another word than before was modified. -/
theorem modifies_of_read_ne {e : Execution} (h : m.execution? = some e) {a : Word}
    (ha : e.after.memory.read a ≠ m.memory.read a) : e.Modifies (m.memory.wrap a) := by
  obtain ⟨i, action, next, haccesses, -, rfl⟩ := execution?_spec h
  cases haccesses with
  | load hop haddress => exact absurd rfl ha
  | none hlw hsw haction =>
    exact absurd (congrArg (Memory.read · a) (m.start.perform_of_not_isAccess haction).1) ha
  | @store address hop haddress =>
    have hread : ∀ a', (m.memory.write address (m.register i.rd)).read a'
        = if m.memory.index address = m.memory.index a' then m.register i.rd
          else m.memory.read a' := m.memory.read_write address _
    have ha' : (m.memory.write address (m.register i.rd)).read a ≠ m.memory.read a := ha
    have hindex : m.memory.index address = m.memory.index a := by
      by_contra hne
      rw [hread, if_neg hne] at ha'
      exact ha' rfl
    have hwrap : m.memory.wrap a = address := by
      rw [← wrap_effectiveAddress (m := m) haddress]
      exact congrArg (BitVec.ofNat 16) hindex.symm
    refine ⟨⟨hop, hwrap ▸ haddress⟩, ?_⟩
    show (m.memory.write address (m.register i.rd)).read (m.memory.wrap a)
      ≠ m.memory.read (m.memory.wrap a)
    rwa [hread, m.memory.index_wrap, m.memory.read_wrap, ← hread]

theorem length_execution {e : Execution} (h : m.execution? = some e) :
    e.after.memory.length = m.memory.length := by
  obtain ⟨i, a, next, -, -, rfl⟩ := execution?_spec h
  exact (m.start.perform_untouched a).length

/-- The machine `m'` looks like `m` in what a program can see, and what is recorded of it. -/
structure Looks (m m' : Machine) : Prop where
  registers : m'.registers = m.registers
  memory : m'.memory = m.memory
  changes : m'.changes = m.changes
  cycles : m'.cycles = m.cycles

/-- A machine whose instruction cannot be executed ends its run as it is. -/
theorem attempt_of_execution?_none (h : m.execution? = none) :
    ∃ m' result, m.attempt = .ended m' result ∧ Looks m m' := by
  have hspec := attempt_spec m
  unfold execution? at h
  generalize m.attempt = cycle at hspec ⊢
  cases hspec with
  | undecodable hd => exact ⟨_, _, rfl, rfl, rfl, rfl, rfl⟩
  | haltWord hd hh => exact ⟨_, _, rfl, rfl, rfl, rfl, rfl⟩
  | faulted hd hh he =>
    obtain ⟨sink, rfl⟩ := execute_fault he
    exact ⟨_, _, rfl, rfl, rfl, rfl, rfl⟩
  | halted hd hh he hs => simp [hd, hh, he] at h
  | went hd hh he hs => simp [hd, hh, he] at h

/-- A machine whose instruction is executed goes on, unless that has halted it. -/
theorem attempt_of_execution?_some {e : Execution} (h : m.execution? = some e) :
    m.attempt
      = if e.after.status = .halted then .ended e.after (.ok .halted) else .went e.after := by
  have hspec := attempt_spec m
  unfold execution? at h
  generalize m.attempt = cycle at hspec ⊢
  cases hspec with
  | undecodable hd => simp [hd] at h
  | haltWord hd hh => simp [hd, hh] at h
  | faulted hd hh he => simp [hd, hh, he] at h
  | halted hd hh he hs =>
    simp only [hd, hh, he, Bool.false_eq_true, if_false, Option.some.injEq] at h
    subst h
    exact (if_pos hs).symm
  | went hd hh he hs =>
    simp only [hd, hh, he, Bool.false_eq_true, if_false, Option.some.injEq] at h
    subst h
    exact (if_neg hs).symm

/-- A row of executions, each of which goes on from the one before. -/
inductive Trace : Machine → List Execution → Machine → Prop where
  | nil {m m' : Machine} (h : Looks m m') : Trace m [] m'
  | cons {m m' : Machine} {e : Execution} {es : List Execution} (h : m.execution? = some e)
      (hrest : Trace e.after es m') : Trace m (e :: es) m'

/-- **Traces.**  A run is a row of executions. -/
theorem trace_runCycles (budget : Nat) (m : Machine) :
    Trace m (executions budget m) (runCycles budget m).1 := by
  induction budget generalizing m with
  | zero => exact .nil ⟨rfl, rfl, rfl, rfl⟩
  | succ budget ih =>
    rw [runCycles_succ, executions]
    by_cases hb : m.atBreakpoint = true
    · rw [if_pos hb, if_pos hb]
      exact .nil ⟨rfl, rfl, rfl, rfl⟩
    · rw [if_neg hb, if_neg hb]
      cases he : m.execution? with
      | none =>
        obtain ⟨m', result, hattempt, hlooks⟩ := attempt_of_execution?_none he
        rw [hattempt]
        exact .nil hlooks
      | some e =>
        rw [attempt_of_execution?_some he]
        refine .cons he ?_
        by_cases hs : e.after.status = .halted
        · simp only [if_pos hs]
          exact .nil ⟨rfl, rfl, rfl, rfl⟩
        · simp only [if_neg hs]
          exact ih e.after

namespace Trace

variable {m' m'' : Machine} {es : List Execution}

/-- A trace does not tell machines apart that look the same in the end. -/
theorem seen (h : Trace m es m') (hlooks : Looks m' m'') : Trace m es m'' := by
  induction h with
  | nil h =>
    exact .nil ⟨hlooks.registers.trans h.registers, hlooks.memory.trans h.memory,
      hlooks.changes.trans h.changes, hlooks.cycles.trans h.cycles⟩
  | cons he _ ih => exact .cons he (ih hlooks)

theorem records (h : Trace m es m') : Records m.changes m'.changes es := by
  induction h with
  | nil h =>
    rw [h.changes]
    exact .nil _
  | cons he _ ih => exact (records_execution he).cons ih

theorem cycles (h : Trace m es m') : m'.cycles = m.cycles + es.length := by
  induction h with
  | nil h => exact h.cycles
  | @cons m m' e es he _ ih =>
    have hone : e.after.cycles = m.cycles + 1 := by
      obtain ⟨i, a, next, -, -, rfl⟩ := execution?_spec he
      exact congrArg (· + 1) (m.start.perform_untouched a).cycles
    rw [ih, hone, List.length_cons]
    omega

theorem register_eq (h : Trace m es m') {r : Register} (hr : ∀ e ∈ es, ¬ e.Alters r) :
    m'.register r = m.register r := by
  induction h with
  | nil h => exact congrArg (Registers.get · r) h.registers
  | cons he _ ih =>
    obtain ⟨hfirst, hrest⟩ := List.forall_mem_cons.mp hr
    obtain ⟨i, a, next, -, -, rfl⟩ := execution?_spec he
    exact (ih hrest).trans (not_not.mp hfirst)

theorem read_eq (h : Trace m es m') {a : Word}
    (ha : ∀ e ∈ es, ¬ e.Modifies (m.memory.wrap a)) : m'.memory.read a = m.memory.read a := by
  induction h with
  | nil h => rw [h.memory]
  | cons he _ ih =>
    obtain ⟨hfirst, hrest⟩ := List.forall_mem_cons.mp ha
    rw [Memory.wrap_congr (length_execution he).symm] at hrest
    exact (ih hrest).trans (not_not.mp fun hne => hfirst (modifies_of_read_ne he hne))

/-- Loads and stores of a run are at addresses below the number of cells. -/
theorem wrap_eq (h : Trace m es m') {e : Execution} (he : e ∈ es) {op : Opcode} {a : Word}
    (ha : e.Addresses op a) : m.memory.wrap a = a := by
  induction h with
  | nil h => cases he
  | @cons m m' e₁ es he₁ _ ih =>
    rcases List.mem_cons.mp he with rfl | he
    · obtain ⟨i, action, next, -, -, rfl⟩ := execution?_spec he₁
      exact wrap_effectiveAddress ha.2
    · rw [Memory.wrap_congr (length_execution he₁).symm]
      exact ih he

end Trace

/-! ## Runs -/

/-- What is recorded from an empty record on. -/
theorem reports_of_records {c : Changes} {trace : List Execution}
    (h : Records .none c trace) : Reports c trace where
  changed r := by simp [h.changed]
  read a := by simp [h.read]
  written a := by simp [h.written]
  modified a := by simp [h.modified]
  mem a := by simp [h.mem, Changes.none]

theorem trace_run (m : Machine) (budget : Nat) :
    Trace { m with changes := .none } (m.executed budget) (m.run budget).1 := by
  have h := trace_runCycles budget { m with changes := .none }
  unfold run executed
  generalize runCycles budget { m with changes := .none } = ran at h
  obtain ⟨m', fault | stop⟩ := ran
  · exact h.seen ⟨rfl, rfl, rfl, rfl⟩
  · exact h.seen ⟨rfl, rfl, rfl, rfl⟩

/-- **What a run records.**  A run executes the instructions of its trace, one after another, and
    spends a cycle on each.  It records that a register has changed just if one of them changed its
    value, that a cell was read just if one loaded its word, that it was written just if one stored
    a word there, and that it was modified just if that was another word.  The addresses are below
    the number of cells.  So what is not recorded as changed or modified is as it was, and what was
    modified was written. -/
theorem run_records (m : Machine) (budget : Nat) :
    let ran := (m.run budget).1
    let trace := m.executed budget
    Trace { m with changes := .none } trace ran ∧ ran.cycles = m.cycles + trace.length ∧
      Reports ran.changes trace ∧
      (∀ a ∈ ran.changes.memory, a.toNat < m.memory.length) ∧
      (∀ r, ran.changes.changed r = false → ran.register r = m.register r) ∧
      (∀ a, (ran.changes.accessOf (m.memory.wrap a)).modified = false →
        ran.memory.read a = m.memory.read a) ∧
      ∀ a, (ran.changes.accessOf a).modified = true → (ran.changes.accessOf a).written = true := by
  intro ran trace
  have htrace := m.trace_run budget
  have hreports : Reports ran.changes trace := reports_of_records htrace.records
  refine ⟨htrace, htrace.cycles, hreports, ?_, ?_, ?_, ?_⟩
  · intro a ha
    obtain ⟨e, he, haccess⟩ := (hreports.mem a).mp ha
    have hwrap : m.memory.wrap a = a := by
      rcases haccess with hloads | hstores
      · exact htrace.wrap_eq he hloads
      · exact htrace.wrap_eq he hstores
    rw [← hwrap, Memory.toNat_wrap]
    exact m.memory.index_lt a
  · intro r hr
    refine htrace.register_eq fun e he halters => ?_
    rw [(hreports.changed r).mpr ⟨e, he, halters⟩] at hr
    cases hr
  · intro a ha
    refine htrace.read_eq fun e he hmodifies => ?_
    rw [(hreports.modified _).mpr ⟨e, he, hmodifies⟩] at ha
    cases ha
  · intro a ha
    obtain ⟨e, he, hstores, -⟩ := (hreports.modified a).mp ha
    exact (hreports.written a).mpr ⟨e, he, hstores⟩

end Machine

end AnnaToolchain
