import AnnaToolchain.Proofs.Assembly.BranchTarget
import AnnaToolchain.Proofs.Image.Bounds

/-! # Branches by number

    A branch whose target is written as a number keeps that number: it is
    the immediate of its word, whatever the program has at the place the
    branch comes to (`Program.codes_branch_number`).  Only the address of
    the branch and the number say where it goes (`Image.takenTarget?`), and
    the machine goes there (`Image.run_takenTarget?`).

    In an assembled program each end of a branch is a statement, at the
    address that the statements before it say (`Program.branchesTo_iff`). -/

namespace AnnaToolchain

/-- The number that a branch goes by, if its target is one. -/
def Statement.branchOffset? (s : Statement) : Option Int :=
  match s.branch? with
  | some (_, _, target) =>
    match NumberOrLabel.parse target with
    | .ok (.number n) => some n
    | _ => none
  | none => none

theorem Statement.branchOffset?_congr {s s' : Statement} (hop : s'.op = s.op)
    (hoperands : s'.operands = s.operands) : s'.branchOffset? = s.branchOffset? := by
  unfold branchOffset?
  rw [branch?_congr hop hoperands]

theorem Statement.branch_of_offset? {s : Statement} {n : Int} (h : s.branchOffset? = some n) :
    ∃ cond rd target, s.branch? = some (cond, rd, target) ∧
      NumberOrLabel.parse target = .ok (.number n) := by
  unfold branchOffset? at h
  split at h
  · next cond rd target hb =>
    split at h
    · next n' hn =>
      cases h
      exact ⟨cond, rd, target, hb, hn⟩
    · cases h
  · cases h

/-! ## Where a branch goes -/

/-- Where the branch at an address of an image goes if it is taken, in a memory of the length the
    image was made for. -/
def Image.takenTarget? (image : Image) (address : Word) : Option Word :=
  match (image.get? address).map Instruction.decode with
  | some (.ok i) =>
    match i.opcode with
    | .branch _ =>
      some (BitVec.ofNat 16 ((address + 1 + Immediate.extend i.bitsImm8).toNat % image.memLen))
    | _ => none
  | _ => none

theorem Image.takenTarget?_of_branch {image : Image} {address : Word} {i : Instruction}
    {cond : Condition} (hget : image.get? address = some i.encode)
    (hop : i.opcode = .branch cond) :
    image.takenTarget? address
      = some (BitVec.ofNat 16
          ((address + 1 + Immediate.extend i.bitsImm8).toNat % image.memLen)) := by
  unfold takenTarget?
  rw [hget, Option.map_some, Instruction.decode_encode]
  simp only [hop]

/-- A branch goes to `t` if the sum of its address and its distance comes down to `t`, first to 16
    bits and then to the length of memory. -/
theorem Image.takenTarget?_eq_iff {image : Image} {address t : Word} {cond : Condition}
    {r : Register} {imm : BitVec 8}
    (hget : image.get? address = some (Instruction.ofImm8 (.branch cond) rfl r imm).encode) :
    image.takenTarget? address = some t ↔
      branchSum address imm.toInt % 65536 % image.memLen = t.toNat := by
  have hpos := image.memLen_pos
  have hle := image.memLen_le
  unfold maxMemory at hle
  have himm : (Instruction.ofImm8 (.branch cond) rfl r imm).bitsImm8 = imm :=
    Instruction.bitsImm8_ofImm8 _ _ _ _
  have hlt := Nat.mod_lt (address + 1 + Immediate.extend imm).toNat hpos
  rw [takenTarget?_of_branch hget rfl, himm, Option.some_inj, ← BitVec.toNat_inj,
    BitVec.toNat_ofNat, Nat.mod_eq_of_lt (show _ < 2 ^ 16 from by omega), ← toNat_add_extend,
    ← Int.natCast_emod, Int.natCast_inj]

/-- What has a target is a branch. -/
theorem Image.branch_of_takenTarget? {image : Image} {address t : Word}
    (h : image.takenTarget? address = some t) :
    ∃ i : Instruction, ∃ cond, image.get? address = some i.encode ∧ i.opcode = .branch cond := by
  unfold takenTarget? at h
  split at h
  · next i hdecode =>
    split at h
    · next cond hop =>
      obtain ⟨word, hget, hi⟩ := Option.map_eq_some_iff.mp hdecode
      rw [← Instruction.encode_of_decode hi] at hget
      exact ⟨i, cond, hget, hop⟩
    · cases h
  · cases h

theorem Machine.action_of_branch (m : Machine) {i : Instruction} {cond : Condition}
    (hop : i.opcode = .branch cond) :
    m.action i = .ok (.goto (if cond.holds (m.register i.rd).toInt
      then m.pc + 1 + Immediate.extend i.bitsImm8 else m.pc + 1)) := by
  have himm : i.imm8 = .ok i.bitsImm8 := Instruction.imm8_eq_bits (by
    unfold Instruction.format
    rw [hop]
    rfl)
  simp only [action, plainAction, hop, himm]
  split <;> rfl

/-- A machine in whose memory the image stands goes where the branch says, if its condition holds,
    and to the next instruction if not. -/
theorem Image.run_takenTarget? {image : Image} {m : Machine} {t : Word}
    (hm : image.LoadedIn m.memory) (hclear : m.atBreakpoint = false)
    (h : image.takenTarget? m.pc = some t) :
    ∃ i : Instruction, ∃ cond, image.get? m.pc = some i.encode ∧ i.opcode = .branch cond ∧
      (m.run 1).2 = .ok .cyclesExceeded ∧
      (m.run 1).1.pc
        = if cond.holds (m.register i.rd).toInt then t else m.memory.wrap (m.pc + 1) := by
  obtain ⟨i, cond, hget, hop⟩ := branch_of_takenTarget? h
  have hf : m.Faces i := ⟨hm.words _ _ hget, hclear⟩
  obtain ⟨hresult, hmoved⟩ := (hf.unchanged.goto (Machine.action_of_branch _ hop)).computes
  refine ⟨i, cond, hget, hop, hresult, hmoved.pc.trans ?_⟩
  rw [takenTarget?_of_branch hget hop] at h
  cases h
  show m.memory.wrap (if cond.holds (m.register i.rd).toInt
    then m.pc + 1 + Immediate.extend i.bitsImm8 else m.pc + 1) = _
  split
  · unfold Memory.wrap Memory.index
    rw [show m.memory.cells.size = image.memLen from hm.length]
  · rfl

/-! ## Branches by number -/

namespace Program

variable {p placed : Program} {memLen : Nat} {image : Image} {i : Nat} {s : Statement}

/-- A branch by number has the number as its immediate. -/
theorem codes_branch_number (h : p.assemble memLen = (placed, .ok image))
    (hs : placed[i]? = some s) {n : Int} (hn : s.branchOffset? = some n) :
    ∃ start cond rd target r, ∃ imm : BitVec 8, s.branch? = some (cond, rd, target) ∧
      (p.aliasesBefore i).register rd = .ok r ∧ imm.toInt = n ∧
      s.Codes start [.ofImm8 (.branch cond) rfl r imm] ∧
      image.get? start = some (Instruction.ofImm8 (.branch cond) rfl r imm).encode := by
  obtain ⟨cond, rd, target, hb, hparse⟩ := Statement.branch_of_offset? hn
  -- in both spellings it is one word, which waits for nothing
  have hholds : ∃ start r, ∃ imm : BitVec 8, (p.aliasesBefore i).register rd = .ok r ∧
      byteImmediate (.branch cond) n = .ok imm ∧ s.Holds image start
        [{ word := (Instruction.ofImm8 (.branch cond) rfl r imm).encode }] := by
    unfold Statement.branch? at hb
    split at hb
    · next hop hargs =>
      cases hb
      obtain ⟨start, e, he, hstart⟩ := holds_real h hs hop hargs
      obtain ⟨r, imm, hr, himm, rfl⟩ := Emission.ofInstruction_imm8_number rfl hparse he
      exact ⟨start, r, imm, hr, himm, hstart⟩
    · next hop hargs =>
      cases hb
      obtain ⟨start, es, hes, hstart⟩ := holds_pseudo h hs hop hargs
      obtain ⟨e, he, rfl⟩ := Emission.ofPseudo_one rfl hes
      obtain ⟨r, imm, hr, himm, rfl⟩ := Emission.ofInstruction_imm8_number rfl hparse he
      exact ⟨start, r, imm, hr, himm, hstart⟩
    · cases hb
  obtain ⟨start, r, imm, hr, himm, hstart⟩ := hholds
  obtain ⟨word, hwords, hget, rfl⟩ := hstart.one
  exact ⟨start, cond, rd, target, r, imm, hb, hr, Immediate.signed?_ok_iff.mp himm,
    ⟨hstart.address, hwords⟩, hget⟩

end Program

/-! ## Statements that write words -/

namespace Program

variable {p placed : Program} {memLen : Nat} {image : Image} {i : Nat} {s : Statement}

/-- A statement that writes words is neither `.org` nor `.def`. -/
theorem op_of_words (h : p.assemble memLen = (placed, .ok image)) (hs : placed[i]? = some s)
    (hwords : s.words ≠ []) :
    s.op ≠ some (.directive .org) ∧ s.op ≠ some (.directive .define) := by
  obtain ⟨effect, heffect, hperforms⟩ := assembled h hs
  cases Effect.ofMnemonic heffect with
  | moveTo => exact absurd hperforms.2 hwords
  | define => exact absurd hperforms.2 hwords
  | emit horg hdefine => exact ⟨horg, hdefine⟩

/-- A statement that writes words stands exactly where the statements before it say, without going
    round memory. -/
theorem cursor_of_words (h : p.assemble memLen = (placed, .ok image)) (hs : placed[i]? = some s)
    (hwords : s.words ≠ []) :
    cursor (placed.take i) < image.memLen ∧
      s.address = some (BitVec.ofNat 16 (cursor (placed.take i))) := by
  obtain ⟨horg, hdefine⟩ := op_of_words h hs hwords
  -- behind the statement there is no more room than memory has
  have hle := cursor_le_assemble h (i + 1)
  rw [List.take_add_one, hs, Option.toList_some,
    cursor_concat (Statement.isOrg_eq_false horg)] at hle
  have hpos := List.length_pos_iff.mpr hwords
  have hin : cursor (placed.take i) < image.memLen := by omega
  refine ⟨hin, ?_⟩
  rw [address_assemble h hs horg hdefine, Nat.mod_eq_of_lt hin]

/-! ## Branches from statement to statement -/

/-- The address of the first word of statement number `i`. -/
def firstWord? (placed : Program) (i : Nat) : Option Word :=
  match placed[i]? with
  | some s => if s.words = [] then none else s.address
  | none => none

/-- Statement number `i` is a branch by number.  If it is taken, it goes to the first word of
    statement number `j`. -/
def BranchesTo (placed : Program) (image : Image) (i j : Nat) : Prop :=
  (placed[i]?.bind Statement.branchOffset?).isSome ∧
    ∃ address target, placed.firstWord? i = some address ∧ placed.firstWord? j = some target ∧
      image.takenTarget? address = some target

theorem firstWord?_eq_some_iff {address : Word} :
    placed.firstWord? i = some address ↔
      ∃ s, placed[i]? = some s ∧ s.words ≠ [] ∧ s.address = some address := by
  unfold firstWord?
  constructor
  · intro h
    split at h
    · next s hs =>
      split at h
      · cases h
      · next hwords => exact ⟨s, hs, hwords, h⟩
    · cases h
  · rintro ⟨s, hs, hwords, haddress⟩
    rw [hs]
    simp only [hwords, if_false]
    exact haddress

/-- The first word of a statement is where the statements before it say. -/
theorem toNat_firstWord? (h : p.assemble memLen = (placed, .ok image)) {address : Word}
    (hi : placed.firstWord? i = some address) :
    address.toNat = cursor (placed.take i) ∧ cursor (placed.take i) < image.memLen := by
  obtain ⟨s, hs, hwords, haddress⟩ := firstWord?_eq_some_iff.mp hi
  obtain ⟨hin, hcursor⟩ := cursor_of_words h hs hwords
  have hle := image.memLen_le
  unfold maxMemory at hle
  cases haddress.symm.trans hcursor
  refine ⟨?_, hin⟩
  rw [BitVec.toNat_ofNat, Nat.mod_eq_of_lt (by omega)]

/-- Where a branch by number goes is a matter of its address and the number. -/
theorem branchesTo_iff (h : p.assemble memLen = (placed, .ok image)) (hs : placed[i]? = some s)
    {n : Int} (hn : s.branchOffset? = some n) {j : Nat} {address target : Word}
    (hi : placed.firstWord? i = some address) (hj : placed.firstWord? j = some target) :
    placed.BranchesTo image i j ↔
      branchSum address n % 65536 % image.memLen = target.toNat := by
  obtain ⟨start, cond, rd, text, r, imm, -, -, rfl, hcode, hget⟩ := codes_branch_number h hs hn
  obtain ⟨s', hs', -, haddress⟩ := firstWord?_eq_some_iff.mp hi
  cases hs.symm.trans hs'
  cases haddress.symm.trans hcode.address
  rw [← Image.takenTarget?_eq_iff hget]
  constructor
  · rintro ⟨-, address', target', hi', hj', htaken⟩
    cases hi.symm.trans hi'
    cases hj.symm.trans hj'
    exact htaken
  · intro htaken
    refine ⟨?_, address, target, hi, hj, htaken⟩
    rw [hs, Option.bind_some, hn]
    rfl

end Program

end AnnaToolchain
